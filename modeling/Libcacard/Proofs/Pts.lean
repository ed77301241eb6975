import Libcacard.Proofs.Answer
import Libcacard.Proofs.Process
import Libcacard.Pts

/-!
# PTS is never answered

The class that is decoded has its upper four bits in one field and what kind of class it is in
another one, and the first is compared with a kind. So a PTS goes to the current applet, and whoever
answers a command puts a status behind the data.
-/

namespace Libcacard

open Machine

variable {τ : Type} {emul : Emul τ} {p : VCardAppletPrivate} {s : Session τ} {apdu : VCardAPDU}

theorem vcardProcessApdu_eq_by (emul : Emul τ) :
    vcardProcessApdu emul = vcardProcessApduBy emul (vcardProcessAppletApdu emul) := rfl

section Status

/-- Two bytes are sent behind the data. -/
def VCardResponse.Marked (r : VCardResponse) : Prop := r.bTotalLen = r.bLen + 2

/-- What answers with a session. -/
abbrev Answers (x : Except Fault (VCardResponse × Session τ)) : Prop := Always (·.1.Marked) x

/-- What answers, passes on or fails. -/
abbrev Handles (x : Except Fault (Handled τ)) : Prop :=
  Always (fun h => ∀ r ∈ h.response, r.Marked) x

theorem marked_makeResponse (status : UInt16) : (vcardMakeResponse status).Marked :=
  have h : (vcardMakeResponse status).Complete 0 := complete_makeResponse status
  h.bTotalLen_eq

theorem answers_makeResponse (status : UInt16) :
    Answers (.ok (vcardMakeResponse status, s)) := always_ok (marked_makeResponse status)

theorem vcardResponseNew_answers (buf : Bytes) (len : ℤ) (Le : ℕ) (status : UInt16) :
    Answers (vcardResponseNew s buf len Le status) := by
  refine always_bind fun payload => ?_
  dsimp only
  split_ifs <;> exact always_ok rfl

theorem vcardResponseNewBytes_answers (buf : Bytes) (len : ℤ) (Le : ℕ) (sw1 sw2 : UInt8) :
    Answers (vcardResponseNewBytes s buf len Le sw1 sw2) := by
  refine always_bind fun payload => ?_
  dsimp only
  split_ifs <;> exact always_ok rfl

theorem handles_answer {x : Except Fault (VCardResponse × Session τ)} (h : Answers x) :
    Handles (do return Handled.answer p (← x)) := by
  refine h.bind fun a ha => always_ok ?_
  rintro _ ⟨⟩
  exact ha

theorem handles_withStatus (status : UInt16) : Handles (.ok (.withStatus p s status)) := by
  refine always_ok ?_
  rintro _ ⟨⟩
  exact marked_makeResponse status

theorem handles_pass {p : Option VCardAppletPrivate} : Handles (.ok (.pass p s)) :=
  always_ok fun _ h => nomatch h

/-- A command that must have a body of a certain length. -/
theorem handles_of_length {n : ℕ} {status : UInt16} {x : Except Fault (Handled τ)}
    (h : Handles x) :
    Handles (if apdu.aLc ≠ n then return .withStatus p s status else x) :=
  always_ite (handles_withStatus status) h

end Status

section Handlers

theorem getProperties_answers (properties : List SimpletlvMember) (n : ℕ) (tags : Bytes) (aLe : ℕ) :
    Answers (getProperties s properties n tags aLe) := by
  refine always_bind fun properties => ?_
  split
  · exact answers_makeResponse _
  · refine always_bind fun encoded => ?_
    dsimp only
    split_ifs
    · exact answers_makeResponse _
    · exact always_ok rfl
    · exact vcardResponseNew_answers _ _ _ _

theorem cacCommonProcessApdu_handles (shared : ByteArr 5) :
    Handles (cacCommonProcessApdu shared p s apdu) := by
  unfold cacCommonProcessApdu
  dsimp only
  split
  · refine always_ite (handles_withStatus _) ?_
    split
    · exact handles_withStatus _
    · exact handles_of_length (handles_answer (getProperties_answers _ _ _ _))
    · exact always_ite (handles_withStatus _) (handles_answer (getProperties_answers _ _ _ _))
    · exact handles_answer (getProperties_answers _ _ _ _)
    · exact handles_withStatus _
  · split_ifs
    · exact handles_pass
    · exact handles_withStatus _
    · exact handles_withStatus _
    · exact handles_withStatus _
  · exact handles_pass
  · exact handles_pass
  · exact handles_withStatus _

theorem readFile_answers (file : Option Bytes) (size offset aLe : ℕ) :
    Answers (readFile s file size offset aLe) := by
  unfold readFile
  dsimp only
  split_ifs
  · exact answers_makeResponse _
  · exact vcardResponseNewBytes_answers _ _ _ _ _

theorem cacCommonProcessApduRead_handles (shared : ByteArr 5) :
    Handles (cacCommonProcessApduRead shared p s apdu) := by
  unfold cacCommonProcessApduRead
  split
  · refine handles_of_length (always_bind fun size => always_bind fun b => ?_)
    split
    · exact handles_answer (readFile_answers _ _ _ _)
    · exact handles_answer (readFile_answers _ _ _ _)
    · exact handles_withStatus _
  · exact handles_withStatus _
  · exact cacCommonProcessApdu_handles shared

theorem cacAppletPkiProcessApdu_handles (shared : ByteArr 5) (emul : Emul τ) :
    Handles (cacAppletPkiProcessApdu shared emul p s apdu) := by
  refine always_bind fun ⟨signBuffer, key⟩ => ?_
  dsimp only
  split
  · exact handles_withStatus _
  · refine always_ite (handles_withStatus _) (always_ite always_error ?_)
    split
    · exact handles_withStatus _
    · exact always_ite (handles_withStatus _) (handles_answer (vcardResponseNew_answers _ _ _ _))
    · exact handles_withStatus _
  · exact cacCommonProcessApduRead_handles shared

theorem acaRespond_answers (Le : ℕ) (acr : List SimpletlvMember) :
    Answers (acaRespond s Le acr) := by
  refine always_bind fun encoded => ?_
  dsimp only
  split
  · exact answers_makeResponse _
  · exact vcardResponseNew_answers _ _ _ _

theorem cacAcaGetAcrResponse_answers (Le : ℕ) (acrid : Option UInt8) (format : AcrFormat) :
    Answers (cacAcaGetAcrResponse s Le acrid format) := by
  cases format with
  | simpleTlv =>
    refine always_bind fun acr => ?_
    split
    · exact answers_makeResponse _
    · exact acaRespond_answers _ _
  | extended => exact always_bind fun _ => vcardResponseNew_answers _ _ _ _

theorem cacAcaGetServiceResponse_answers (Le pkiApplets : ℕ) (format : AcrFormat) :
    Answers (cacAcaGetServiceResponse s Le pkiApplets format) := by
  cases format with
  | simpleTlv => exact always_bind fun _ => acaRespond_answers _ _
  | extended => exact always_bind fun _ => vcardResponseNew_answers _ _ _ _

theorem cacAcaGetAmpResponse_answers (Le : ℕ) (format : AcrFormat) :
    Answers (cacAcaGetAmpResponse s Le format) := by
  cases format with
  | simpleTlv => exact always_bind fun _ => acaRespond_answers _ _
  | extended => exact vcardResponseNew_answers _ _ _ _

/-- What answers, or leaves no response. -/
abbrev MayAnswer (x : Except Fault (Option VCardResponse × Session τ)) : Prop :=
  Always (fun a => ∀ r ∈ a.1, r.Marked) x

theorem mayAnswer_some {x : Except Fault (VCardResponse × Session τ)} (h : Answers x) :
    MayAnswer (do let (r, s) ← x; return (some r, s)) := by
  refine h.bind fun a ha => always_ok ?_
  rintro _ ⟨⟩
  exact ha

theorem mayAnswer_makeResponse (status : UInt16) :
    MayAnswer (.ok (some (vcardMakeResponse status), s)) := by
  refine always_ok ?_
  rintro _ ⟨⟩
  exact marked_makeResponse status

theorem cacAcaGetAppletAcrResponse_mayAnswer (Le pkiApplets : ℕ) (query : AcrQuery)
    (format : AcrFormat) :
    MayAnswer (cacAcaGetAppletAcrResponse s Le pkiApplets query format) := by
  unfold cacAcaGetAppletAcrResponse
  cases format with
  | simpleTlv =>
    cases query with
    | coid coid =>
      dsimp only
      split
      · exact mayAnswer_makeResponse _
      · exact mayAnswer_some (acaRespond_answers _ _)
    | aid aid =>
      refine always_bind fun acr => ?_
      split
      · exact mayAnswer_makeResponse _
      · exact mayAnswer_some (acaRespond_answers _ _)
    | all =>
      refine always_bind fun acr => ?_
      split
      · exact mayAnswer_makeResponse _
      · exact mayAnswer_some (acaRespond_answers _ _)
  | extended =>
    refine always_bind fun buffer => ?_
    split
    · exact always_ok fun _ h => nomatch h
    · exact mayAnswer_some (vcardResponseNew_answers _ _ _ _)

theorem handles_mayAnswer {x : Except Fault (Option VCardResponse × Session τ)} (h : MayAnswer x) :
    Handles (do let (r, s) ← x; return ⟨.done, r, some p, s⟩) :=
  h.bind fun _ ha => always_ok ha

theorem cacAppletAcaProcessApdu_handles (shared : ByteArr 5) :
    Handles (cacAppletAcaProcessApdu shared p s apdu) := by
  refine always_bind fun pkiApplets => ?_
  split
  · refine always_ite (handles_withStatus _) ?_
    dsimp only
    split
    iterate 3 exact handles_of_length (handles_answer (cacAcaGetAcrResponse_answers _ _ _))
    · exact handles_of_length
        (always_bind fun _ => handles_answer (cacAcaGetAcrResponse_answers _ _ _))
    iterate 6
      exact handles_of_length (handles_mayAnswer (cacAcaGetAppletAcrResponse_mayAnswer _ _ _ _))
    iterate 2 exact handles_of_length (handles_answer (cacAcaGetAmpResponse_answers _ _))
    iterate 2 exact handles_of_length (handles_answer (cacAcaGetServiceResponse_answers _ _ _))
    · exact handles_withStatus _
  · exact cacCommonProcessApdu_handles shared

theorem cacPassthroughContainerProcessApdu_handles (shared : ByteArr 5) (emul : Emul τ) :
    Handles (cacPassthroughContainerProcessApdu shared emul p s apdu) := by
  refine always_bind fun label => ?_
  dsimp only
  split_ifs
  · exact always_bind fun files => cacCommonProcessApduRead_handles shared
  · exact cacCommonProcessApduRead_handles shared

theorem gpAppletContainerProcessApdu_handles {p : Option VCardAppletPrivate}
    (cplpData : ByteArr cplpDataSize) :
    Always (fun h => ∀ r ∈ h.1.response, r.Marked)
      (gpAppletContainerProcessApdu cplpData p s apdu) := by
  unfold gpAppletContainerProcessApdu
  split
  · dsimp only
    split_ifs
    · refine (vcardResponseNew_answers _ _ _ _).bind fun a ha => always_ok ?_
      rintro _ ⟨⟩
      exact ha
    · refine (vcardResponseNew_answers _ _ _ _).bind fun a ha => always_ok ?_
      rintro _ ⟨⟩
      exact ha
    · refine always_ok ?_
      rintro _ ⟨⟩
      exact marked_makeResponse _
  · exact always_ok fun _ h => nomatch h

theorem msftAppletContainerProcessApdu_handles {p : Option VCardAppletPrivate} :
    Handles (msftAppletContainerProcessApdu p s apdu) := by
  unfold msftAppletContainerProcessApdu
  split
  · split_ifs
    · refine (vcardResponseNew_answers _ _ _ _).bind fun a ha => always_ok ?_
      rintro _ ⟨⟩
      exact ha
    · refine always_ok ?_
      rintro _ ⟨⟩
      exact marked_makeResponse _
  · exact handles_pass

/-- Whatever data the applet has. -/
theorem run_handles (emul : Emul τ) (st : Statics) (process : VCardProcessAPDU)
    (p : Option VCardAppletPrivate) :
    Always (fun h => ∀ r ∈ h.1.response, r.Marked) (process.run emul st p s apdu) := by
  have hkeep {x : Except Fault (Handled τ)} (h : Handles x) :
      Always (fun h => ∀ r ∈ h.1.response, r.Marked) (do return (← x, st)) :=
    h.bind fun _ ha => always_ok ha
  cases process with
  | cacCommonRead => exact always_bind fun p => hkeep (cacCommonProcessApduRead_handles _)
  | cacPki => exact always_bind fun p => hkeep (cacAppletPkiProcessApdu_handles _ _)
  | cacAca => exact always_bind fun p => hkeep (cacAppletAcaProcessApdu_handles _)
  | cacPassthrough =>
    exact always_bind fun p => hkeep (cacPassthroughContainerProcessApdu_handles _ _)
  | gp => exact (gpAppletContainerProcessApdu_handles _).bind fun _ ha => always_ok ha
  | msft => exact hkeep msftAppletContainerProcessApdu_handles

end Handlers

section Command

/-- What is left with a response whose status is sent, if it has one. -/
abbrev Processes (x : Except Fault (Processed τ)) : Prop :=
  Always (fun r => ∀ response ∈ r.response, response.Marked) x

theorem processes_withStatus {card : VCard τ} (status : UInt16) :
    Processes (.ok (.withStatus card status)) := by
  refine always_ok ?_
  rintro _ ⟨⟩
  exact marked_makeResponse status

theorem processes_answer {card : VCard τ} {r : VCardResponse} (h : r.Marked) :
    Processes (.ok (.answer card r)) := by
  refine always_ok ?_
  rintro _ ⟨⟩
  exact h

theorem vcardProcessAppletApdu_processes (emul : Emul τ) (card : VCard τ) (apdu : VCardAPDU) :
    Processes (vcardProcessAppletApdu emul card apdu) := by
  unfold vcardProcessAppletApdu
  rw [dif_pos apdu.aChannel_lt_max]
  split
  · exact always_ok fun _ h => nomatch h
  · split
    · exact always_error
    · exact (run_handles _ _ _ _).bind fun _ ha => always_ok ha

theorem pcscProcessAppletApdu_processes (sendReceive : SendReceive τ) (card : VCard τ)
    (apdu : VCardAPDU) : Processes (pcscProcessAppletApdu sendReceive card apdu) := by
  unfold pcscProcessAppletApdu apduCb
  rw [dif_pos apdu.aChannel_lt_max]
  split
  · exact always_ok fun _ h => nomatch h
  · dsimp only
    split
    · exact always_ok fun _ h => nomatch h
    · split_ifs
      · exact always_ok fun _ h => nomatch h
      · refine always_ok ?_
        rintro _ ⟨⟩
        rfl

theorem vmSelectFile_processes (card : VCard τ) (apdu : VCardAPDU) :
    Processes (vmSelectFile card apdu) := by
  have hdata {buf : Bytes} {len : ℤ} {Le : ℕ} {card : VCard τ} :
      Processes (do
        let (r, s) ← vcardResponseNew card.toSession buf len Le Status.success
        return .answer { card with toSession := s } r) :=
    (vcardResponseNew_answers _ _ _ _).bind fun _ ha => processes_answer ha
  refine always_ite (processes_withStatus _) (always_bind fun card => ?_)
  exact always_ite (processes_withStatus _) (always_ite hdata (always_ite always_error hdata))

theorem vmVerify_processes (emul : Emul τ) (card : VCard τ) (apdu : VCardAPDU) :
    Processes (.ok (vmVerify emul card apdu)) := by
  unfold vmVerify
  dsimp only
  split_ifs
  · exact processes_withStatus _
  · exact processes_withStatus _
  · exact processes_withStatus _
  · exact processes_answer rfl
  · exact processes_answer rfl
  · exact processes_withStatus _

theorem vmGetResponse_processes (card : VCard τ) (apdu : VCardAPDU) :
    Processes (vmGetResponse card apdu) := by
  unfold vmGetResponse
  split
  · exact processes_withStatus _
  · exact (vcardResponseNewBytes_answers _ _ _ _ _).bind fun _ ha => processes_answer ha

theorem vcard7816VmProcessApdu_processes (emul : Emul τ) (card : VCard τ) (apdu : VCardAPDU) :
    Processes (vcard7816VmProcessApdu emul card apdu) := by
  unfold vcard7816VmProcessApdu
  split_ifs
  · exact processes_withStatus _
  · exact processes_withStatus _
  · split
    · exact vmSelectFile_processes card apdu
    · exact vmVerify_processes emul card apdu
    · exact vmGetResponse_processes card apdu
    · exact processes_withStatus _

theorem vcardProcessApduBy_processes
    {processAppletApdu : VCard τ → VCardAPDU → Except Fault (Processed τ)}
    (happlet : ∀ card apdu, Processes (processAppletApdu card apdu)) (card : VCard τ)
    (apdu : VCardAPDU) : Processes (vcardProcessApduBy emul processAppletApdu card apdu) := by
  unfold vcardProcessApduBy
  rw [if_neg (aType_ne_pts apdu)]
  refine (happlet _ _).bind fun r hr => ?_
  split_ifs
  · exact always_ok hr
  · split
    · exact processes_withStatus _
    · exact vcard7816VmProcessApdu_processes _ _ _
    · exact always_error

theorem not_echoes_of_processes {card : VCard τ} {rawApdu : Bytes} {x : Except Fault (Processed τ)}
    (h : Processes x) : ¬ EchoesPts card rawApdu x := by
  rintro ⟨r, response, hx, -, hresponse, -, hlen, -⟩
  have hmarked : response.bTotalLen = response.bLen + 2 := h r hx response hresponse
  omega

/-- No PTS is echoed, by an emulated card or by that of a PC/SC reader, in whatever state. -/
theorem pts_never_echoed (emul : Emul τ) (sendReceive : SendReceive τ) (card : VCard τ)
    (rawApdu : Bytes) (apdu : VCardAPDU) (_hnew : vcardApduNew rawApdu = .ok (.ok apdu))
    (_hpts : apdu.aCla = 0xff) :
    ¬ EchoesPts card rawApdu (vcardProcessApdu emul card apdu)
      ∧ ¬ EchoesPts card rawApdu
        (vcardProcessApduBy emul (pcscProcessAppletApdu sendReceive) card apdu) := by
  constructor
  · rw [vcardProcessApdu_eq_by]
    exact not_echoes_of_processes
      (vcardProcessApduBy_processes (vcardProcessAppletApdu_processes emul) card apdu)
  · exact not_echoes_of_processes
      (vcardProcessApduBy_processes (pcscProcessAppletApdu_processes sendReceive) card apdu)

/-- `FF 00 00 00` -/
def ptsCommand : VCardAPDU := ⟨[0xff, 0x00, 0x00, 0x00], ⟨0, 0, none⟩, by decide, rfl⟩

/-- A card of which one byte is left to be fetched. -/
def pendingCard : VCard Unit :=
  { vcardNew () .initial with bufferResponse := some (.ofBytes [0x2a]) }

theorem ptsCommand_not_echoed :
    ¬ EchoesPts pendingCard [0xff, 0x00, 0x00, 0x00]
        (vcardProcessApdu (Emul.plain none nofun) pendingCard ptsCommand)
      ∧ ¬ EchoesPts pendingCard [0xff, 0x00, 0x00, 0x00]
        (vcardProcessApduBy (Emul.plain none nofun)
          (pcscProcessAppletApdu fun _ _ => (some [0x90, 0x00], ())) pendingCard ptsCommand) :=
  pts_never_echoed _ _ pendingCard _ ptsCommand rfl rfl

/-- It is refused with a status, and the pending response is gone. -/
theorem pts_refused : ∃ r response,
    vcardProcessApdu (Emul.plain none nofun) pendingCard ptsCommand = .ok r
      ∧ r.response = some response ∧ response.bData.take response.bTotalLen = [0x69, 0x00]
      ∧ pendingCard.bufferResponse.isSome ∧ r.card.bufferResponse.isNone
      ∧ ¬ EchoesPts pendingCard [0xff, 0x00, 0x00, 0x00]
        (vcardProcessApdu (Emul.plain none nofun) pendingCard ptsCommand) := by
  refine ⟨_, _, rfl, rfl, rfl, rfl, rfl, ?_⟩
  rintro ⟨r, response, hr, -, hresponse, hecho, -⟩
  cases hr
  cases hresponse
  exact absurd hecho (by decide)

end Command

end Libcacard
