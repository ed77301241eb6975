import Libcacard.Proofs.GetResponse
import Libcacard.ReadBuffer
import Mathlib.Algebra.BigOperators.Group.List.Basic

/-!
# Files are read whole

A READ BUFFER is answered by the part of the file it asks for, in one answer or in the parts that
GET RESPONSE commands ask for, and leaves the files as they are. So the chunks a client reads one
after another are the file.
-/

namespace Libcacard

open Machine

variable {τ : Type} {emul : Emul τ} {card : VCard τ} {apdu : VCardAPDU} {s : Session τ}
  {shared : ByteArr 5} {p : VCardAppletPrivate} {file : AppletFile} {f : Bytes} {offset : ℕ}
  {size : UInt8}

section OneAnswer

theorem Handled.answer_inj {r r' : VCardResponse × Session τ}
    (h : Handled.answer p r = .answer p r') : r = r' :=
  Prod.ext (Option.some.inj (congrArg Handled.response h)) (congrArg Handled.session h)

/-- A file that is built is read from its start or from some way into it. -/
theorem readFile_some (size offset aLe : ℕ) :
    readFile s (some f) size offset aLe = .ok (if offset ≤ f.length
      then respond s ((f.drop offset).take (min size (f.length - offset))) aLe Status.success
      else (vcardMakeResponse Status.errorP1P2Incorrect, s)) := by
  unfold readFile
  simp only [Option.getD_some]
  split_ifs with hneg hle hle
  · omega
  · rfl
  · have hsize : min (size : ℤ) (f.length - offset) = (min size (f.length - offset) : ℕ) := by
      omega
    rw [hsize, vcardResponseNewBytes_eq (by rw [List.length_drop]; omega)]
    rfl
  · omega

theorem cacCommonProcessApduRead_reads (h : apdu.Reads file offset size)
    (hf : p.file file = some f) : cacCommonProcessApduRead shared p s apdu
      = .ok (.answer p (if offset ≤ f.length
        then respond s ((f.drop offset).take (min size.toNat (f.length - offset))) apdu.aLe
          Status.success
        else (vcardMakeResponse Status.errorP1P2Incorrect, s))) := by
  have hLc : apdu.aLc = 2 := by
    rw [← apdu.length_body, h.body_eq]
    rfl
  have hfirst : readByte [file.code, size] 0 = .ok file.code := rfl
  have hsecond : readByte [file.code, size] 1 = .ok size := rfl
  unfold cacCommonProcessApduRead
  simp only [h.aIns_eq, hLc, h.body_eq, h.offset_eq, hfirst, hsecond, ok_bind, ne_eq,
    not_true_eq_false, if_false]
  cases file with
  | tag =>
    rw [show p.tagBuffer = some f from hf]
    simp only [AppletFile.code, readFile_some]
    rfl
  | value =>
    rw [show p.valBuffer = some f from hf]
    simp only [AppletFile.code, readFile_some]
    rfl

/-- READ BUFFER goes to the common handler once both files are there. -/
theorem run_readBuffer {a : VCardApplet} {st : Statics} (hok : AppletOk a)
    (hp : a.appletPrivate = some p) (hanswers : a.processApdu.AnswersReadBuffer)
    (htag : p.tagBuffer ≠ none) (hval : p.valBuffer ≠ none)
    (hins : apdu.aIns = Ins.cacReadBuffer) : a.processApdu.run emul st a.appletPrivate s apdu
      = (do return (← cacCommonProcessApduRead st.cccBufferProperties p s apdu, st)) := by
  cases hok with
  | commonRead =>
    obtain rfl := Option.some.inj hp
    rfl
  | pki _ hu =>
    obtain rfl := Option.some.inj hp
    simp only [VCardProcessAPDU.run, assertPrivate, ok_bind, cacAppletPkiProcessApdu, hu, pkiData,
      hins]
    rfl
  | passthrough _ hu =>
    obtain rfl := Option.some.inj hp
    simp only [VCardProcessAPDU.run, assertPrivate, ok_bind, cacPassthroughContainerProcessApdu,
      hu, ptData, hins, htag, hval, or_self, and_false, if_false]
  | aca | gp | msft => exact hanswers.elim

variable (emul) in
/-- What the common handler answers is what the card answers, and the applets stay. -/
theorem vcardProcessApdu_readBuffer (hok : CardOk card)
    (hserves : ServesFiles card apdu.channel p) (hins : apdu.aIns = Ins.cacReadBuffer) :
    ∃ reply r, cacCommonProcessApduRead card.statics.cccBufferProperties p
        (card.start apdu).toSession apdu = .ok (.answer p reply)
      ∧ vcardProcessApdu emul card apdu = .ok r ∧ r.status = .done ∧ r.response = some reply.1
      ∧ r.card.toSession = reply.2 ∧ CardOk r.card ∧ card.SameApplets r.card := by
  obtain ⟨i, a, hi, ha, hp, hanswers⟩ := hserves.exists_applet
  have hrun : a.processApdu.run emul card.statics a.appletPrivate (card.start apdu).toSession apdu
      = _ := run_readBuffer (hok.applets a (List.mem_of_getElem? ha)).1 hp hanswers
        hserves.tagBuffer_ne hserves.valBuffer_ne hins
  obtain ⟨reply, hreply, -⟩ := @cacCommonProcessApduRead_answered _
    card.statics.cccBufferProperties p (card.start apdu).toSession apdu hins
  rw [hreply, ok_bind] at hrun
  have hset : card.applets.set i { a with appletPrivate := some p } = card.applets := by
    rw [← hp]
    exact set_of_getElem? ha
  have hprocess := vcardProcessApdu_of_run hi ha hrun
  exact ⟨reply, _, hreply, hprocess, rfl, rfl, rfl, cardStep_cardOk hok (cardStep_apdu hprocess),
    hset, rfl⟩

end OneAnswer

section UntilSuccess

theorem not_untilSuccess_nil : ¬ UntilSuccess [] := by
  rintro ⟨init, last, h, -⟩
  exact List.append_ne_nil_of_right_ne_nil init (List.cons_ne_nil last []) h.symm

theorem untilSuccess_cons {r : VCardResponse} {rs : List VCardResponse} :
    UntilSuccess (r :: rs) ↔ (r.bStatus = Status.success ∧ rs = [])
      ∨ (r.bStatus ≠ Status.success ∧ UntilSuccess rs) := by
  constructor
  · rintro ⟨init, last, heq, hlast, hinit⟩
    cases init with
    | nil =>
      obtain ⟨rfl, rfl⟩ := List.cons.inj heq
      exact .inl ⟨hlast, rfl⟩
    | cons r' init =>
      obtain ⟨rfl, rfl⟩ := List.cons.inj heq
      obtain ⟨hr, hinit⟩ := List.forall_mem_cons.1 hinit
      exact .inr ⟨hr, init, last, rfl, hlast, hinit⟩
  · rintro (⟨hr, rfl⟩ | ⟨hr, init, last, rfl, hlast, hinit⟩)
    · exact ⟨[], r, rfl, hr, fun _ h => absurd h List.not_mem_nil⟩
    · exact ⟨r :: init, last, rfl, hlast, List.forall_mem_cons.2 ⟨hr, hinit⟩⟩

theorem data_bytesLeft (n : ℕ) : (bytesLeft n).data = [] := rfl

theorem sw1_ne_success (sw2 : UInt8) :
    (0x61 : UInt8).toUInt16 <<< 8 ||| sw2.toUInt16 ≠ Status.success := by
  intro h
  have hbytes := statusBytes_ofStatusBytes 0x61 sw2
  rw [h] at hbytes
  exact absurd (congrArg Prod.fst hbytes) (show (0x90 : UInt8) ≠ 0x61 by decide)

theorem partStatus_eq_success {left : ℕ} : partStatus left = Status.success ↔ left = 0 := by
  unfold partStatus
  split_ifs with h
  · exact ⟨fun _ => h, fun _ => rfl⟩
  · exact ⟨fun hs => absurd hs (sw1_ne_success _), fun h0 => absurd h0 h⟩

/-- What is fetched until `9000` is all that was pending. -/
theorem data_of_untilSuccess : ∀ {rest : Bytes} {Les : List ℕ},
    UntilSuccess (getResponses (some rest) Les) →
      (getResponses (some rest) Les).flatMap VCardResponse.data = rest
  | _, [], h => absurd h not_untilSuccess_nil
  | rest, Le :: Les, h => by
    rw [getResponses, untilSuccess_cons] at h
    rw [getResponses, List.flatMap_cons, data_dataResponse]
    have hstatus : (dataResponse (rest.take Le) (partStatus (rest.length - Le))).bStatus
        = Status.success ↔ rest.length ≤ Le := partStatus_eq_success.trans Nat.sub_eq_zero_iff_le
    rcases h with ⟨hs, hnil⟩ | ⟨hs, hrest⟩
    · rw [hnil, List.flatMap_nil, List.append_nil, List.take_of_length_le (hstatus.1 hs)]
    · have hle : ¬ rest.length ≤ Le := fun hle => hs (hstatus.2 hle)
      rw [if_neg hle] at hrest ⊢
      rw [data_of_untilSuccess hrest, List.take_append_drop]

/-- Asking for enough bytes gets to `9000`. -/
theorem exists_untilSuccess : ∀ {rest : Bytes} {Les : List ℕ}, rest ≠ [] →
    rest.length ≤ Les.sum → ∃ n, UntilSuccess (getResponses (some rest) (Les.take n))
  | rest, [], hne, h => absurd (List.length_eq_zero_iff.1 (Nat.le_zero.1 h)) hne
  | rest, Le :: Les, hne, h => by
    have hstatus : (dataResponse (rest.take Le) (partStatus (rest.length - Le))).bStatus
        = Status.success ↔ rest.length ≤ Le := partStatus_eq_success.trans Nat.sub_eq_zero_iff_le
    rw [List.sum_cons] at h
    by_cases hle : rest.length ≤ Le
    · refine ⟨1, ?_⟩
      rw [List.take_succ_cons, List.take_zero, getResponses, untilSuccess_cons]
      exact .inl ⟨hstatus.2 hle, rfl⟩
    · have hdrop : (rest.drop Le).length = rest.length - Le := List.length_drop
      have hrest : rest.drop Le ≠ [] := List.ne_nil_of_length_pos (by omega)
      obtain ⟨n, hn⟩ := exists_untilSuccess hrest (show (rest.drop Le).length ≤ Les.sum by omega)
      refine ⟨n + 1, ?_⟩
      rw [List.take_succ_cons, getResponses, untilSuccess_cons, if_neg hle]
      exact .inr ⟨fun hs => hle (hstatus.1 hs), hn⟩

end UntilSuccess

section Fetch

variable {gs : List VCardAPDU} {data : Bytes} {card' : VCard τ} {channel : Fin maxChannel}

theorem ServesFiles.same (h : ServesFiles card channel p) (hsame : card.SameApplets card') :
    ServesFiles card' channel p := by
  obtain ⟨i, a, hi, ha, hp, hanswers⟩ := h.exists_applet
  exact ⟨⟨i, a, by rw [hsame.2]; exact hi, by rw [hsame.1]; exact ha, hp, hanswers⟩,
    h.tagBuffer_ne, h.valBuffer_ne⟩

/-- A command's own answer, and then those of the GET RESPONSE commands. -/
theorem fetches_iff {r : Processed τ} {response : VCardResponse}
    (hr : vcardProcessApdu emul card apdu = .ok r) (hdone : r.status = .done)
    (hresp : r.response = some response) (hok : CardOk r.card) :
    Fetches emul card apdu gs data card' ↔ (∀ g ∈ gs, g.GetsResponse)
      ∧ UntilSuccess (response :: getResponses r.card.pending (gs.map VCardAPDU.aLe))
      ∧ response.data ++ (getResponses r.card.pending (gs.map VCardAPDU.aLe)).flatMap
        VCardResponse.data = data
      ∧ ∃ replies, run (cardStep emul) r.card (gs.map .apdu) = .ok (replies, card') := by
  have hstep : cardStep emul card (.apdu apdu) = .ok (some ⟨.done, some response⟩, r.card) := by
    rw [cardStep_apdu hr, hdone, hresp]
  constructor
  · rintro ⟨hgs, responses, huntil, hdata, hrun⟩
    obtain ⟨o, card₁, replies, hstep', hrun', heq⟩ := run_cons_eq_ok.1 hrun
    obtain ⟨rfl, rfl⟩ := Prod.mk.inj (Except.ok.inj (hstep.symm.trans hstep'))
    obtain ⟨card₂, hrun₂, -⟩ := run_getResponses emul hok hgs
    obtain ⟨rfl, rfl⟩ := Prod.mk.inj (Except.ok.inj (hrun₂.symm.trans hrun'))
    have hinj : Function.Injective fun response : VCardResponse =>
        (some ⟨.done, some response⟩ : Option CardReply) := fun a b h => by simpa using h
    obtain rfl := List.map_injective_iff.2 hinj
      (heq.trans (List.map_cons (f := fun response : VCardResponse =>
        (some ⟨.done, some response⟩ : Option CardReply))).symm)
    exact ⟨hgs, huntil, hdata, _, hrun'⟩
  · rintro ⟨hgs, huntil, hdata, replies, hrun⟩
    obtain ⟨card₂, hrun₂, -⟩ := run_getResponses emul hok hgs
    obtain ⟨rfl, rfl⟩ := Prod.mk.inj (Except.ok.inj (hrun₂.symm.trans hrun))
    exact ⟨hgs, _, huntil, hdata, run_cons_eq_ok.2 ⟨_, _, _, hstep, hrun, rfl⟩⟩

theorem length_slice (f : Bytes) (offset n : ℕ) :
    ((f.drop offset).take (min n (f.length - offset))).length = min n (f.length - offset) := by
  rw [List.length_take, List.length_drop]
  omega

variable (emul) in
/-- A READ BUFFER into the file. -/
theorem vcardProcessApdu_reads (hok : CardOk card) (hserves : ServesFiles card apdu.channel p)
    (hf : p.file file = some f) (h : apdu.Reads file offset size) (hle : offset ≤ f.length) :
    ∃ r, vcardProcessApdu emul card apdu = .ok r ∧ r.status = .done ∧ CardOk r.card
      ∧ card.SameApplets r.card
      ∧ r.response = some (respond (card.start apdu).toSession
        ((f.drop offset).take (min size.toNat (f.length - offset))) apdu.aLe Status.success).1
      ∧ (apdu.aLe < min size.toNat (f.length - offset) → r.card.pending
        = some ((f.drop offset).take (min size.toNat (f.length - offset)))) := by
  obtain ⟨reply, r, hreply, hr, hdone, hresp, hsession, hok', hsame⟩ :=
    vcardProcessApdu_readBuffer emul hok hserves h.aIns_eq
  rw [cacCommonProcessApduRead_reads h hf, if_pos hle] at hreply
  obtain rfl := Handled.answer_inj (Except.ok.inj hreply)
  refine ⟨r, hr, hdone, hok', hsame, hresp, fun hLe => ?_⟩
  rw [VCard.pending, hsession, respond, if_pos (by rw [length_slice]; exact hLe)]
  rfl

/-- A READ BUFFER beyond the end of the file. -/
theorem answersStatus_of_reads (hok : CardOk card) (hserves : ServesFiles card apdu.channel p)
    (hf : p.file file = some f) (h : apdu.Reads file offset size) (hlt : f.length < offset) :
    AnswersStatus emul card apdu Status.errorP1P2Incorrect := by
  obtain ⟨reply, r, hreply, hr, hdone, hresp, hsession, -, -⟩ :=
    vcardProcessApdu_readBuffer emul hok hserves h.aIns_eq
  rw [cacCommonProcessApduRead_reads h hf, if_neg (Nat.not_le.2 hlt)] at hreply
  obtain rfl := Handled.answer_inj (Except.ok.inj hreply)
  refine ⟨r, _, hr, hdone, hresp, rfl, rfl, ?_⟩
  rw [VCard.pending, hsession, VCard.start, if_neg (by rw [h.aIns_eq]; decide)]
  rfl

/-- What is fetched is the part of the file. -/
theorem fetches_reads (hok : CardOk card) (hserves : ServesFiles card apdu.channel p)
    (hf : p.file file = some f) (h : apdu.Reads file offset size) (hle : offset ≤ f.length)
    (hfetches : Fetches emul card apdu gs data card') :
    data = (f.drop offset).take (min size.toNat (f.length - offset)) ∧ CardOk card'
      ∧ card.SameApplets card' := by
  obtain ⟨r, hr, hdone, hok', hsame, hresp, hpending⟩ :=
    vcardProcessApdu_reads emul hok hserves hf h hle
  obtain ⟨hgs, huntil, hdata, replies, hrun⟩ := (fetches_iff hr hdone hresp hok').1 hfetches
  obtain ⟨card₂, hrun₂, hok₂, hsame₂⟩ := run_getResponses emul hok' hgs
  obtain ⟨-, rfl⟩ := Prod.mk.inj (Except.ok.inj (hrun₂.symm.trans hrun))
  refine ⟨?_, hok₂, hsame.trans hsame₂⟩
  rw [← hdata]
  by_cases hLe : apdu.aLe < min size.toNat (f.length - offset)
  · rw [hpending hLe] at huntil ⊢
    rw [respond, if_pos (by rw [length_slice]; exact hLe)] at huntil ⊢
    rcases untilSuccess_cons.1 huntil with ⟨hs, -⟩ | ⟨-, hrest⟩
    · exact absurd hs (sw1_ne_success _)
    · rw [data_bytesLeft, List.nil_append, data_of_untilSuccess hrest]
  · rw [respond, if_neg (by rw [length_slice]; exact hLe)] at huntil ⊢
    rcases untilSuccess_cons.1 huntil with ⟨-, hnil⟩ | ⟨hs, -⟩
    · rw [hnil, data_dataResponse, List.flatMap_nil, List.append_nil]
    · exact absurd rfl hs

/-- GET RESPONSE commands that ask for enough bytes fetch it. -/
theorem exists_fetches (hok : CardOk card) (hserves : ServesFiles card apdu.channel p)
    (hf : p.file file = some f) (h : apdu.Reads file offset size) (hle : offset ≤ f.length)
    (hgs : ∀ g ∈ gs, g.GetsResponse)
    (henough : min size.toNat (f.length - offset) ≤ max apdu.aLe (gs.map VCardAPDU.aLe).sum) :
    ∃ n data card', Fetches emul card apdu (gs.take n) data card' := by
  obtain ⟨r, hr, hdone, hok', hsame, hresp, hpending⟩ :=
    vcardProcessApdu_reads emul hok hserves hf h hle
  have hlen := length_slice f offset size.toNat
  by_cases hLe : apdu.aLe < min size.toNat (f.length - offset)
  · obtain ⟨n, hn⟩ := @exists_untilSuccess
      ((f.drop offset).take (min size.toNat (f.length - offset))) (gs.map VCardAPDU.aLe)
      (List.ne_nil_of_length_pos (by omega)) (by omega)
    have hgs' : ∀ g ∈ gs.take n, g.GetsResponse := fun g hg => hgs g (List.mem_of_mem_take hg)
    obtain ⟨card₂, hrun, -⟩ := run_getResponses emul hok' hgs'
    refine ⟨n, _, card₂, (fetches_iff hr hdone hresp hok').2 ⟨hgs', ?_, rfl, _, hrun⟩⟩
    rw [hpending hLe, respond, if_pos (by rw [hlen]; exact hLe), List.map_take, untilSuccess_cons]
    exact .inr ⟨sw1_ne_success _, hn⟩
  · refine ⟨0, _, r.card, (fetches_iff hr hdone hresp hok').2 ⟨by simp, ?_, rfl, [], rfl⟩⟩
    rw [respond, if_neg (by rw [hlen]; exact hLe), untilSuccess_cons]
    exact .inl ⟨rfl, rfl⟩

section WholeFile

/-- There is a READ BUFFER for any part, on any channel, that asks for the whole answer. -/
theorem exists_reads (channel : Fin maxChannel) (file : AppletFile) {offset : ℕ}
    (hoffset : offset < 65536) (size : UInt8) :
    ∃ apdu : VCardAPDU, apdu.channel = channel ∧ apdu.Reads file offset size ∧ apdu.aLe = 256 := by
  obtain ⟨hi, lo, -, hbytes⟩ := exists_bebytes hoffset
  have hclass : ∀ c : Fin maxChannel, (vcardApduSetClass (UInt8.ofNat c)).aChannel = c := by decide
  obtain ⟨apdu, hCla, hIns, hP1, hP2, hLe, hbody⟩ := VCardAPDU.exists_of_form
    (UInt8.ofNat channel) Ins.cacReadBuffer hi lo
    (show (LengthForm.case4S [file.code, size] 0).Wf from ⟨Nat.le_succ 1, Nat.le_add_left 2 253⟩)
  refine ⟨apdu, Fin.ext ?_, ⟨hIns, by rw [hP1, hP2, hbytes], hbody⟩, hLe⟩
  change (vcardApduSetClass apdu.aCla).aChannel = channel
  rw [hCla, hclass]

/-- Every schedule of sizes can be carried out. -/
theorem exists_readsChunks (hf : p.file file = some f) (hlen : f.length ≤ 65535) :
    ∀ (sizes : List UInt8) {card : VCard τ} {offset : ℕ}, CardOk card →
      ServesFiles card channel p → offset ≤ f.length →
      ∃ chunks card', ReadsChunks emul channel file card offset sizes chunks card'
  | [], card, _, _, _, _ => ⟨[], card, .nil⟩
  | size :: sizes, card, offset, hok, hserves, hle => by
    obtain ⟨apdu, hchannel, hreads, hLe⟩ :=
      exists_reads channel file (show offset < 65536 by omega) size
    have hsize := size.toNat_lt
    have hserves' : ServesFiles card apdu.channel p := hchannel ▸ hserves
    obtain ⟨n, data, card₁, hfetches⟩ := @exists_fetches _ emul _ _ _ _ _ _ _ [] hok hserves' hf
      hreads hle (by simp) (by omega)
    obtain ⟨hdata, hok₁, hsame⟩ := fetches_reads hok hserves' hf hreads hle hfetches
    have hlen₁ : data.length = min size.toNat (f.length - offset) := by
      rw [hdata, length_slice]
    obtain ⟨chunks, card₂, h⟩ := exists_readsChunks hf hlen sizes hok₁ (hserves.same hsame)
      (show offset + data.length ≤ f.length by omega)
    exact ⟨_, _, .cons hchannel hreads hfetches h⟩

/-- What the chunks from an offset on are. -/
theorem readsChunks_flatten {sizes : List UInt8} {chunks : List Bytes} (hf : p.file file = some f)
    (h : ReadsChunks emul channel file card offset sizes chunks card') (hok : CardOk card)
    (hserves : ServesFiles card channel p) (hle : offset ≤ f.length) :
    chunks.flatten = (f.drop offset).take (sizes.map UInt8.toNat).sum
      ∧ ∀ n, f.length ≤ offset + ((sizes.take n).map UInt8.toNat).sum →
        ∀ c ∈ chunks.drop n, c = [] := by
  induction h with
  | nil => exact ⟨by simp, by simp⟩
  | @cons card card₁ card₂ apdu gs offset size sizes data chunks hchannel hreads hfetches _ ih =>
    subst hchannel
    obtain ⟨hdata, hok₁, hsame⟩ := fetches_reads hok hserves hf hreads hle hfetches
    have hlen : data.length = min size.toNat (f.length - offset) := by
      rw [hdata, length_slice]
    obtain ⟨hflatten, hrest⟩ := ih hok₁ (hserves.same hsame) (by omega)
    have hdrop : f.drop (offset + data.length) = (f.drop offset).drop size.toNat := by
      rw [List.drop_drop]
      by_cases hend : offset + size.toNat ≤ f.length
      · rw [hlen, Nat.min_eq_left (by omega)]
      · rw [List.drop_eq_nil_of_le (by omega), List.drop_eq_nil_of_le (by omega)]
    have htake : data = (f.drop offset).take size.toNat := by
      rw [hdata, List.take_eq_take_iff, List.length_drop]
      omega
    refine ⟨?_, fun n hn => ?_⟩
    · rw [List.flatten_cons, hflatten, hdrop, List.map_cons, List.sum_cons, List.take_add, ← htake]
    · cases n with
      | zero =>
        simp only [List.take_zero, List.map_nil, List.sum_nil] at hn
        have hnil : data = [] := List.length_eq_zero_iff.1 (by omega)
        refine List.forall_mem_cons.2 ⟨hnil, ?_⟩
        exact hrest 0 (by simp only [List.take_zero, List.map_nil, List.sum_nil]; omega)
      | succ n =>
        simp only [List.take_succ_cons, List.map_cons, List.sum_cons] at hn
        exact hrest n (by omega)

theorem reconstructs_of_readsChunks {sizes : List UInt8} {chunks : List Bytes}
    (hf : p.file file = some f) (hok : CardOk card) (hserves : ServesFiles card channel p)
    (hsizes : ∀ size ∈ sizes, size ≠ 0)
    (h : ReadsChunks emul channel file card 0 sizes chunks card') :
    Reconstructs f sizes chunks := by
  obtain ⟨hflatten, hrest⟩ := readsChunks_flatten hf h hok hserves (Nat.zero_le _)
  rw [List.drop_zero] at hflatten
  refine ⟨hflatten, fun hlen => ?_, fun n hn => hrest n (by omega)⟩
  have hpos : ∀ n ∈ sizes.map UInt8.toNat, 1 ≤ n := by
    rintro _ hn
    obtain ⟨size, hmem, rfl⟩ := List.mem_map.1 hn
    exact Nat.pos_of_ne_zero fun h0 => hsizes size hmem (UInt8.toNat_inj.1 h0)
  have hsum := List.length_le_sum_of_one_le _ hpos
  rw [List.length_map] at hsum
  rw [hflatten, List.take_of_length_le (by omega)]

/-- READ BUFFER serves a file whole and nothing else. -/
theorem readBuffer_serves {digest : Bytes → Option Bytes} (hcard : Reachable emul digest card)
    (hserves : ServesFiles card channel p) (hf : p.file file = some f) (hlen : f.length ≤ 65535) :
    (∀ (apdu : VCardAPDU) offset size, apdu.channel = channel → apdu.Reads file offset size →
      (offset ≤ f.length →
        (∀ gs data card', Fetches emul card apdu gs data card' →
          data = (f.drop offset).take (min size.toNat (f.length - offset)))
        ∧ ∀ gs : List VCardAPDU, (∀ g ∈ gs, g.GetsResponse) →
          min size.toNat (f.length - offset) ≤ max apdu.aLe (gs.map VCardAPDU.aLe).sum →
          ∃ n data card', Fetches emul card apdu (gs.take n) data card')
      ∧ (f.length < offset → AnswersStatus emul card apdu Status.errorP1P2Incorrect))
    ∧ (∀ sizes : List UInt8, (∀ size ∈ sizes, size ≠ 0) →
      (∃ chunks card', ReadsChunks emul channel file card 0 sizes chunks card')
      ∧ ∀ chunks card', ReadsChunks emul channel file card 0 sizes chunks card' →
        Reconstructs f sizes chunks)
    ∧ ∀ apdu : VCardAPDU, apdu.channel = channel → apdu.aIns = Ins.cacReadBuffer →
      ∃ r, vcardProcessApdu emul card apdu = .ok r ∧ r.card.applets = card.applets := by
  have hok := hcard.cardOk
  refine ⟨?_, fun sizes hsizes => ⟨?_, fun chunks card' h => ?_⟩, ?_⟩
  · rintro apdu offset size rfl hreads
    refine ⟨fun hle => ⟨fun gs data card' h => ?_, fun gs hgs henough => ?_⟩, fun hlt => ?_⟩
    · exact (fetches_reads hok hserves hf hreads hle h).1
    · exact exists_fetches hok hserves hf hreads hle hgs henough
    · exact answersStatus_of_reads hok hserves hf hreads hlt
  · exact exists_readsChunks hf hlen sizes hok hserves (Nat.zero_le _)
  · exact reconstructs_of_readsChunks hf hok hserves hsizes h
  · rintro apdu rfl hins
    obtain ⟨-, r, -, hr, -, -, -, -, hsame⟩ :=
      vcardProcessApdu_readBuffer emul hok hserves hins
    exact ⟨r, hr, hsame.1⟩

end WholeFile

end Fetch

/-- The value file of the applet on a command's channel after it, if its files are built. -/
def servedAfter (emul : Emul τ) (first : VCardAPDU) (card : VCard τ) : Option Bytes :=
  match vcardProcessApdu emul card first with
  | .ok r => do
    let i ← r.card.currentApplet first.channel
    let a ← r.card.applets[i]?
    let p ← a.appletPrivate
    if a.processApdu.AnswersReadBuffer ∧ p.tagBuffer ≠ none then p.valBuffer else none
  | .error _ => none

theorem exists_of_servedAfter {first : VCardAPDU} (h : servedAfter emul first card = some f) :
    ∃ r p, vcardProcessApdu emul card first = .ok r ∧ ServesFiles r.card first.channel p
      ∧ p.file .value = some f := by
  unfold servedAfter at h
  split at h
  · rename_i r hr
    simp only [Option.bind_eq_bind, Option.bind_eq_some_iff] at h
    obtain ⟨i, hi, a, ha, p, hp, hfile⟩ := h
    split_ifs at hfile with hbuilt
    exact ⟨r, p, hr, ⟨⟨i, a, hi, ha, hp, hbuilt.1⟩, hbuilt.2, by simp [hfile]⟩, hfile⟩
  · cases h

/-- SELECT of the CCC on channel 0. -/
def selectCcc : VCardAPDU :=
  ⟨[0x00, 0xa4, 0x04, 0x00, 0x07, 0xa0, 0x00, 0x00, 0x01, 0x16, 0xdb, 0x00], ⟨7, 0, some 5⟩,
    by decide, by decide⟩

/-- The values of the CCC are read in chunks of any sizes. -/
theorem readBuffer_serves_ccc : ∃ card r f,
    vcardEmulMakeCard (Emul.plain none nofun) (fun _ => none) () .initial [] = .ok (.done, card)
      ∧ vcardProcessApdu (Emul.plain none nofun) card selectCcc = .ok r ∧ f.length = 220
      ∧ ∀ sizes : List UInt8, (∀ size ∈ sizes, size ≠ 0) → ∀ chunks card',
        ReadsChunks (Emul.plain none nofun) selectCcc.channel .value r.card 0 sizes chunks card' →
        Reconstructs f sizes chunks := by
  obtain ⟨card, hmade, hcheck⟩ := exists_of_madeWith (show madeWith
    (fun card => (servedAfter (Emul.plain none nofun) selectCcc card).any
      fun f => f.length = 220)
    (vcardEmulMakeCard (Emul.plain none nofun) (fun _ => none) () .initial []) by decide +kernel)
  obtain ⟨f, hserved, hlen⟩ := (Option.any_eq_true _ _).1 hcheck
  obtain ⟨r, p, hr, hserves, hf⟩ := exists_of_servedAfter hserved
  have hlen : f.length = 220 := of_decide_eq_true hlen
  exact ⟨card, r, f, hmade, hr, hlen, fun sizes hsizes =>
    ((readBuffer_serves ((Reachable.made hmade).step (cardStep_apdu hr)) hserves hf
      (by omega)).2.1 sizes hsizes).2⟩

end Libcacard
