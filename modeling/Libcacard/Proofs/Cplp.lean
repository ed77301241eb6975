import Libcacard.Cplp
import Libcacard.Proofs.Program

/-!
# Whose serial number is in the data

The template holds the last serial number that was asked for (`cplpData_of_run`). So a card with a
serial number answers with its own, and a card without one with that of another, if any was asked
before it.
-/

namespace Libcacard

open Machine

variable {τ : Type} {emul : Emul τ} {digest : Bytes → Option Bytes} {card : VCard τ}
  {apdu : VCardAPDU}

section Template

theorem length_cplpSerial : ∀ six ∈ card.cplpSerial, six.length = 6 := by
  intro six h
  unfold VCard.cplpSerial at h
  split_ifs at h
  · obtain rfl := Option.some.inj h
    rw [List.length_take, card.serial.2]
    rfl
  · cases h

theorem length_cplpTemplate {serial : Option Bytes} (h : ∀ six ∈ serial, six.length = 6) :
    (cplpTemplate serial).length = cplpDataSize := by
  cases serial with
  | none => exact cplpDataInit.2
  | some six =>
    have hsix := h six rfl
    rw [cplpTemplate, length_splice (by rw [cplpDataInit.2, hsix]; decide), cplpDataInit.2]

/-- A query leaves the card's serial number in the template, or what was there. -/
theorem cplpDataOf_template {data : ByteArr cplpDataSize} {last : Option Bytes}
    (hdata : data.1 = cplpTemplate last) (hlast : ∀ six ∈ last, six.length = 6) :
    (cplpDataOf card.serial card.serialLen data).1 = cplpTemplate (card.cplpSerial.or last) := by
  unfold cplpDataOf VCard.cplpSerial
  split_ifs
  · change splice data.1 15 _ = splice cplpDataInit.1 15 _
    rw [hdata]
    cases last with
    | none => rfl
    | some six =>
      have hsix := hlast six rfl
      exact splice_over (by rw [cplpDataInit.2, hsix]; decide)
        (by rw [hsix, List.length_take, card.serial.2]; rfl)
  · exact hdata

/-- The template is as it was at the start just if there are zeros in it. -/
theorem cplpTemplate_eq_none_iff {last : Option Bytes} (hlast : ∀ six ∈ last, six.length = 6) :
    cplpTemplate last = cplpTemplate none ↔ ∀ six, last = some six → six = List.replicate 6 0 := by
  cases last with
  | none => exact iff_of_true rfl fun _ h => nomatch h
  | some six =>
    have hsix := hlast six rfl
    have htemplate : cplpTemplate none = splice cplpDataInit.1 15 (List.replicate 6 0) := rfl
    constructor
    · rintro h _ ⟨⟩
      rw [htemplate, cplpTemplate, splice, splice, hsix, List.length_replicate] at h
      exact List.append_cancel_left (List.append_cancel_right h)
    · intro h
      rw [htemplate, h six rfl]
      rfl

end Template

section Command

/-- The template after a command. -/
def cplpAfter (card : VCard τ) (apdu : VCardAPDU) : ByteArr cplpDataSize :=
  if AsksCplp card apdu then cplpDataOf card.serial card.serialLen card.statics.cplpData
  else card.statics.cplpData

theorem run_statics {process : VCardProcessAPDU} {st : Statics} {p : Option VCardAppletPrivate}
    {s : Session τ} (h : process ≠ .gp) :
    Always (fun x => x.2 = st) (process.run emul st p s apdu) := by
  cases process with
  | cacCommonRead | cacPki | cacAca | cacPassthrough =>
    exact always_bind fun _ => always_bind fun _ => always_ok rfl
  | gp => exact absurd rfl h
  | msft => exact always_bind fun _ => always_ok rfl

/-- The template after a command that a Global Platform applet gets. -/
def gpAfter (s : Session τ) (apdu : VCardAPDU) (data : ByteArr cplpDataSize) :
    ByteArr cplpDataSize :=
  if apdu.aIns = Ins.getData ∧ bebytes2ushort apdu.aP1 apdu.aP2 = 0x9f7f then
    cplpDataOf s.serial s.serialLen data
  else data

theorem gpProcessApdu_cplpData {data : ByteArr cplpDataSize} {p : Option VCardAppletPrivate}
    {s : Session τ} :
    Always (fun x => x.2 = gpAfter s apdu data) (gpAppletContainerProcessApdu data p s apdu) := by
  unfold gpAppletContainerProcessApdu
  split
  · rename_i hins
    dsimp only
    by_cases htag : bebytes2ushort apdu.aP1 apdu.aP2 = 0x9f7f
    · rw [if_pos htag, gpAfter, if_pos ⟨hins, htag⟩]
      exact always_bind fun _ => always_ok rfl
    · rw [if_neg htag, gpAfter, if_neg fun h => htag h.2]
      exact always_ite (always_bind fun _ => always_ok rfl) (always_ok rfl)
  · rename_i hins
    rw [gpAfter, if_neg fun h => hins h.1]
    exact always_ok rfl

theorem run_gp_cplpData {st : Statics} {p : Option VCardAppletPrivate} {s : Session τ} :
    Always (fun x => x.2.cplpData = gpAfter s apdu st.cplpData)
      (VCardProcessAPDU.gp.run emul st p s apdu) :=
  gpProcessApdu_cplpData.bind fun _ h => always_ok h

theorem asksCplp_iff {i : ℕ} {a : VCardApplet} (hi : card.currentApplet apdu.channel = some i)
    (ha : card.applets[i]? = some a) : AsksCplp card apdu ↔ a.processApdu = .gp
      ∧ apdu.aIns = Ins.getData ∧ bebytes2ushort apdu.aP1 apdu.aP2 = 0x9f7f := by
  have hgp : ((card.currentApplet apdu.channel).any fun i =>
      card.applets[i]?.any fun a => decide (a.processApdu = .gp)) ↔ a.processApdu = .gp := by
    rw [hi, Option.any_some, ha, Option.any_some, decide_eq_true_iff]
  exact ⟨fun h => ⟨hgp.1 h.gp, h.ins, h.tag⟩, fun h => ⟨hgp.2 h.1, h.2.1, h.2.2⟩⟩

theorem not_asksCplp (hi : card.currentApplet apdu.channel = none) : ¬ AsksCplp card apdu := by
  intro h
  have hgp := h.gp
  rw [hi] at hgp
  cases hgp

theorem vcardProcessAppletApdu_cplpData (emul : Emul τ) (card : VCard τ) (apdu : VCardAPDU) :
    Always (fun r => r.card.statics.cplpData = cplpAfter card apdu)
      (vcardProcessAppletApdu emul card apdu) := by
  rcases hi : card.currentApplet apdu.channel with _ | i
  · rw [vcardProcessAppletApdu_none hi, cplpAfter, if_neg (not_asksCplp hi)]
    exact always_ok rfl
  rcases ha : card.applets[i]? with _ | a
  · unfold vcardProcessAppletApdu
    unfold VCardAPDU.channel at hi
    rw [dif_pos apdu.aChannel_lt_max, hi]
    simp only [ha]
    exact always_error
  rw [vcardProcessAppletApdu_some emul card hi ha]
  by_cases hgp : a.processApdu = .gp
  · rw [hgp]
    refine run_gp_cplpData.bind fun _ h => always_ok (h.trans ?_)
    simp only [gpAfter, cplpAfter, asksCplp_iff hi ha, hgp, true_and]
  · refine (run_statics hgp).bind fun x h => always_ok ?_
    rw [cplpAfter, if_neg fun hasks => hgp ((asksCplp_iff hi ha).1 hasks).1]
    exact congrArg Statics.cplpData h

end Command

section Iso

theorem vcardSelectApplet_statics (card : VCard τ) (channel : ℕ) (applet : Option ℕ) :
    Always (fun card' => card'.statics = card.statics) (vcardSelectApplet card channel applet) := by
  unfold vcardSelectApplet
  split_ifs
  · split
    · exact always_ok rfl
    · split
      · exact always_error
      · split
        · exact always_ok rfl
        · exact always_bind fun _ => always_ok rfl
  · exact always_error

theorem vmSelectFile_statics (card : VCard τ) (apdu : VCardAPDU) :
    Always (fun r => r.card.statics = card.statics) (vmSelectFile card apdu) := by
  refine always_ite (always_ok rfl) ((vcardSelectApplet_statics card _ _).bind fun card' h => ?_)
  refine always_ite (always_ok h) (always_ite ?_ (always_ite always_error ?_))
  · exact always_bind fun _ => always_ok h
  · exact always_bind fun _ => always_ok h

theorem vcard7816VmProcessApdu_statics (emul : Emul τ) (card : VCard τ) (apdu : VCardAPDU) :
    Always (fun r => r.card.statics = card.statics) (vcard7816VmProcessApdu emul card apdu) := by
  refine always_ite (always_ok rfl) (always_ite (always_ok rfl) ?_)
  split
  · exact vmSelectFile_statics card apdu
  · refine always_ok ?_
    unfold vmVerify
    dsimp only
    split_ifs <;> rfl
  · unfold vmGetResponse
    split
    · exact always_ok rfl
    · exact always_bind fun _ => always_ok rfl
  · exact always_ok rfl

theorem vcardReset_statics (emul : Emul τ) (card : VCard τ) (power : VCardPower) :
    Always (fun card' => card'.statics = card.statics) (vcardReset emul card power) := by
  unfold vcardReset
  dsimp only
  split
  · split
    · exact always_error
    · exact always_bind fun _ => always_ok rfl
  · exact always_ok rfl

theorem cplpAfter_start : cplpAfter (card.start apdu) apdu = cplpAfter card apdu := by
  have hiff : AsksCplp (card.start apdu) apdu ↔ AsksCplp card apdu :=
    ⟨fun h => ⟨h.gp, h.ins, h.tag⟩, fun h => ⟨h.gp, h.ins, h.tag⟩⟩
  simp only [cplpAfter, hiff]
  rfl

theorem vcardProcessApdu_cplpData (emul : Emul τ) (card : VCard τ) (apdu : VCardAPDU) :
    Always (fun r => r.card.statics.cplpData = cplpAfter card apdu)
      (vcardProcessApdu emul card apdu) := by
  unfold vcardProcessApdu
  rw [if_neg (aType_ne_pts apdu), ← cplpAfter_start]
  dsimp only
  rw [start_eq]
  refine (vcardProcessAppletApdu_cplpData emul (card.start apdu) apdu).bind fun r hr => ?_
  refine always_ite (always_ok hr) ?_
  split
  · exact always_ok hr
  · intro r' hr'
    rw [vcard7816VmProcessApdu_statics emul r.card apdu r' hr']
    exact hr
  · exact always_error

end Iso

section Answer

theorem respond_payload {s : Session τ} {p q : Bytes} {aLe : ℕ} {status : UInt16}
    (hlen : p.length = q.length)
    (hresponse : (respond s p aLe status).1 = (respond s q aLe status).1)
    (hpending : (respond s p aLe status).2.bufferResponse
      = (respond s q aLe status).2.bufferResponse) : p = q := by
  unfold respond at hresponse hpending
  rw [hlen] at hresponse hpending
  by_cases hle : aLe < q.length
  · simp only [if_pos hle, Option.some.injEq] at hpending
    exact congrArg VCardBufferResponse.buffer hpending
  · simp only [if_neg hle] at hresponse
    exact List.append_cancel_right (congrArg VCardResponse.bData hresponse)

theorem AnswersWith.unique {p q : Bytes} (hp : AnswersWith emul card apdu p)
    (hq : AnswersWith emul card apdu q) (hlen : p.length = q.length) : p = q := by
  obtain ⟨r, hr, -, hresponse, hpending⟩ := hp
  obtain ⟨r', hr', -, hresponse', hpending'⟩ := hq
  obtain rfl := Except.ok.inj (hr.symm.trans hr')
  exact respond_payload hlen (Option.some.inj (hresponse.symm.trans hresponse'))
    (hpending.symm.trans hpending')

/-- A card that is asked answers with the template and puts its serial number there first. -/
theorem AsksCplp.answersWith (h : AsksCplp card apdu) (emul : Emul τ) :
    AnswersWith emul card apdu
      (cplpDataOf card.serial card.serialLen card.statics.cplpData).1 := by
  obtain ⟨i, hi, hgp⟩ := (Option.any_eq_true _ _).1 h.gp
  obtain ⟨a, ha, hgp⟩ := (Option.any_eq_true _ _).1 hgp
  rw [decide_eq_true_iff] at hgp
  have hsize : ((cplpDataOf card.serial card.serialLen card.statics.cplpData).1.length : ℤ)
      = cplpDataSize := by
    rw [(cplpDataOf card.serial card.serialLen card.statics.cplpData).2]
  have hrun : ∃ handled st, VCardProcessAPDU.gp.run emul card.statics a.appletPrivate
      (card.start apdu).toSession apdu = .ok (handled, st) ∧ handled.status = .done
      ∧ handled.response = some (respond (card.start apdu).toSession
        (cplpDataOf card.serial card.serialLen card.statics.cplpData).1 apdu.aLe Status.success).1
      ∧ handled.session = (respond (card.start apdu).toSession
        (cplpDataOf card.serial card.serialLen card.statics.cplpData).1 apdu.aLe
        Status.success).2 := by
    unfold VCardProcessAPDU.run gpAppletContainerProcessApdu
    simp only [h.ins]
    rw [if_pos h.tag]
    change ∃ handled st, ((vcardResponseNew (card.start apdu).toSession
      (cplpDataOf card.serial card.serialLen card.statics.cplpData).1 cplpDataSize _ _ >>= _)
        >>= _) = _ ∧ _
    rw [← hsize, vcardResponseNew_all]
    exact ⟨_, _, rfl, rfl, rfl, rfl⟩
  obtain ⟨handled, st, hrun, hdone, hresponse, hsession⟩ := hrun
  have hprocess : vcardProcessAppletApdu emul (card.start apdu) apdu
      = .ok (handled.toProcessed (card.start apdu) i a st) := by
    rw [vcardProcessAppletApdu_some emul (card.start apdu) hi ha, hgp]
    change (VCardProcessAPDU.gp.run emul card.statics _ _ _ >>= _) = _
    rw [hrun]
    rfl
  refine ⟨_, vcardProcessApdu_handled hprocess ?_, hdone, hresponse, ?_⟩
  · rw [Handled.toProcessed, hdone]
    nofun
  · rw [← hsession]
    rfl

end Answer

section Programs

theorem makeCard_cplpData {y : Program τ} {new : NewCard τ} {rv : VCardStatus}
    (h : y.makeCard emul digest new = .ok (rv, card)) :
    card.statics.cplpData = y.statics.cplpData := by
  rcases vcardEmulMakeCard_cases h with ⟨-, -, hstatics, -⟩ | ⟨-, hmade⟩
  · rw [hstatics]
    rfl
  · obtain ⟨-, ccc, -, -, hccc, -, -⟩ := hmade.built
    rw [cacNewCccApplet_eq _ hmade.count] at hccc
    obtain ⟨-, hstatics⟩ := Prod.mk.inj (Except.ok.inj hccc)
    rw [← hstatics]
    rfl

/-- The template has the bytes `last`, or those of its start. -/
structure Cplp (last : Option Bytes) (data : ByteArr cplpDataSize) : Prop where
  six : ∀ six ∈ last, six.length = 6
  data : data.1 = cplpTemplate last

theorem Program.step_cplpData {y y' : Program τ} {op : ProgramOp τ} {reply : Option CardReply}
    {last : Option Bytes} (hy : Cplp last y.statics.cplpData)
    (h : y.step emul digest op = .ok (reply, y')) :
    Cplp ((y.askedSerial op).or last) y'.statics.cplpData := by
  rcases op with new | ⟨k, op⟩
  · obtain ⟨⟨rv, card⟩, hmake, h⟩ := bind_eq_ok.1 h
    obtain ⟨-, rfl⟩ := Prod.mk.inj (Except.ok.inj h)
    change Cplp last card.statics.cplpData
    rwa [makeCard_cplpData hmake]
  · unfold step at h
    dsimp only at h
    rcases hk : y.cardAt k with _ | card
    · rw [hk] at h
      cases h
    rw [hk] at h
    obtain ⟨⟨reply, card'⟩, hstep, h⟩ := bind_eq_ok.1 h
    obtain ⟨-, rfl⟩ := Prod.mk.inj (Except.ok.inj h)
    have hstatics : card.statics = y.statics := by
      obtain ⟨c, -, rfl⟩ := Option.map_eq_some_iff.1 hk
      rfl
    rw [← hstatics] at hy
    rcases op with apdu | power
    · obtain ⟨r, hr, hcard⟩ := bind_eq_ok.1 hstep
      obtain ⟨-, rfl⟩ := Prod.mk.inj (Except.ok.inj hcard)
      rw [askedSerial, hk, Option.bind_some]
      change Cplp _ r.card.statics.cplpData
      rw [vcardProcessApdu_cplpData emul card apdu r hr, cplpAfter]
      by_cases hasks : AsksCplp card apdu
      · rw [if_pos hasks, if_pos hasks]
        refine ⟨fun six hsix => ?_, cplpDataOf_template hy.data hy.six⟩
        cases hserial : card.cplpSerial with
        | some serial =>
          rw [hserial, Option.some_or] at hsix
          exact length_cplpSerial six (hserial.trans hsix)
        | none =>
          rw [hserial, Option.none_or] at hsix
          exact hy.six six hsix
      · rwa [if_neg hasks, if_neg hasks]
    · obtain ⟨card'', hreset, hcard⟩ := bind_eq_ok.1 hstep
      obtain ⟨-, rfl⟩ := Prod.mk.inj (Except.ok.inj hcard)
      change Cplp last card''.statics.cplpData
      rwa [vcardReset_statics emul card power card'' hreset]

/-- The template after a run has the last serial number that was asked for. -/
theorem cplpData_of_run : ∀ {y y' : Program τ} {ops : List (ProgramOp τ)} {last : Option Bytes}
    {replies : List (Option CardReply)}, Cplp last y.statics.cplpData →
    run (Program.step emul digest) y ops = .ok (replies, y') →
    Cplp (Program.lastSerial emul digest y ops last) y'.statics.cplpData
  | y, y', [], last, replies, hy, h => by
    obtain ⟨-, rfl⟩ := Prod.mk.inj (Except.ok.inj h)
    exact hy
  | y, y', op :: ops, last, replies, hy, h => by
    obtain ⟨reply, y₁, replies', hstep, hrun, -⟩ := run_cons_eq_ok.1 h
    rw [Program.lastSerial, hstep]
    exact cplpData_of_run (Program.step_cplpData hy hstep) hrun

/-- A card answers with its own serial number just if it has one, or there is none of another card
in the template. -/
theorem answersWith_own_iff {before : List (ProgramOp τ)} {replies : List (Option CardReply)}
    {y : Program τ} {k : ℕ} (hrun : run (Program.step emul digest) .start before = .ok (replies, y))
    (hk : y.cardAt k = some card) (hasks : AsksCplp card apdu) :
    AnswersWith emul card apdu (cplpTemplate card.cplpSerial)
      ↔ (card.cplpSerial = none → ∀ six,
        Program.lastSerial emul digest .start before none = some six → six = List.replicate 6 0) := by
  have hstart : Cplp none (Program.start : Program τ).statics.cplpData :=
    ⟨fun _ h => (nomatch h), rfl⟩
  have hdata := cplpData_of_run hstart hrun
  have hstatics : card.statics = y.statics := by
    obtain ⟨c, -, rfl⟩ := Option.map_eq_some_iff.1 hk
    rfl
  have hanswer := hasks.answersWith emul
  rw [hstatics, cplpDataOf_template hdata.data hdata.six] at hanswer
  cases hserial : card.cplpSerial with
  | some six =>
    rw [hserial, Option.some_or] at hanswer
    exact iff_of_true hanswer fun h => nomatch h
  | none =>
    rw [hserial, Option.none_or] at hanswer
    rw [← cplpTemplate_eq_none_iff hdata.six]
    constructor
    · intro hown _
      exact hanswer.unique hown ((length_cplpTemplate hdata.six).trans cplpDataInit.2.symm)
    · intro heq
      rwa [← heq rfl]

/-- Every card answers with its own data just if no card without a serial number is asked after one
whose bytes are not zero. -/
theorem cplpOwn_iff (emul : Emul τ) (digest : Bytes → Option Bytes) (ops : List (ProgramOp τ)) :
    CplpOwn emul digest ops ↔ CplpUnmixed emul digest ops := by
  constructor
  · intro h before k apdu after replies y card hops hrun hk hasks
    exact (answersWith_own_iff hrun hk hasks).1 (h before k apdu after replies y card hops hrun hk
      hasks)
  · intro h before k apdu after replies y card hops hrun hk hasks
    exact (answersWith_own_iff hrun hk hasks).2 (h before k apdu after replies y card hops hrun hk
      hasks)

end Programs

section Other

/-- After a run the template that a card would answer with is not its own. -/
def cplpMixed (emul : Emul τ) (digest : Bytes → Option Bytes) (ops : List (ProgramOp τ)) (k : ℕ)
    (apdu : VCardAPDU) : Bool :=
  match run (Program.step emul digest) .start ops with
  | .ok (_, y) => (y.cardAt k).any fun card => decide (AsksCplp card apdu)
      && decide ((cplpDataOf card.serial card.serialLen card.statics.cplpData).1
        ≠ cplpTemplate card.cplpSerial)
  | .error _ => false

theorem not_cplpOwn_of_mixed (before : List (ProgramOp τ)) {k : ℕ}
    (h : cplpMixed emul digest before k apdu) :
    ¬ CplpOwn emul digest (before ++ [.card k (.apdu apdu)]) := by
  intro hown
  unfold cplpMixed at h
  split at h
  · obtain ⟨card, hk, hcard⟩ := (Option.any_eq_true _ _).1 h
    rw [Bool.and_eq_true, decide_eq_true_iff, decide_eq_true_iff] at hcard
    obtain ⟨hasks, hne⟩ := hcard
    refine hne ((hasks.answersWith emul).unique
      (hown before k apdu [] _ _ card rfl ‹_› hk hasks) ?_)
    rw [length_cplpTemplate length_cplpSerial]
    exact (cplpDataOf card.serial card.serialLen card.statics.cplpData).2
  · cases h

/-- SELECT of the Global Platform applet -/
def selectGp : VCardAPDU :=
  ⟨[0x00, 0xa4, 0x04, 0x00, 0x07, 0xa0, 0x00, 0x00, 0x00, 0x03, 0x00, 0x00], ⟨7, 0, some 5⟩,
    by decide, rfl⟩

/-- `80 CA 9F 7F 2D` -/
def getCplp : VCardAPDU := ⟨[0x80, 0xca, 0x9f, 0x7f, 0x2d], ⟨0, 45, none⟩, by decide, rfl⟩

/-- A card with a certificate is asked, and then one without. -/
theorem otherSerial_answered : ¬ CplpOwn (Emul.plain none nofun)
    (fun _ => some (List.replicate 32 0x01)) [.make (newCard [([1, 2, 3], 0)]), .make (newCard []),
      .card 0 (.apdu selectGp), .card 0 (.apdu getCplp), .card 1 (.apdu selectGp),
      .card 1 (.apdu getCplp)] :=
  not_cplpOwn_of_mixed [.make (newCard [([1, 2, 3], 0)]), .make (newCard []),
    .card 0 (.apdu selectGp), .card 0 (.apdu getCplp), .card 1 (.apdu selectGp)]
    (by decide +kernel)

end Other

end Libcacard
