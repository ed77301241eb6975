import Libcacard.CardStep
import Libcacard.Proofs.Aca
import Libcacard.Proofs.Split

/-!
# What the handlers do

Each handler, on the data of its own kind of applet, answers a command or passes it on. It stops
only where it computes a number that is no `int`.
-/

namespace Libcacard

open Machine

variable {τ : Type} {shared : ByteArr 5} {emul : Emul τ} {st : Statics} {p : VCardAppletPrivate}
  {s : Session τ} {apdu : VCardAPDU}

/-- The commands CAC applets leave to the ISO layer. -/
def VCardAPDU.PassedOn (apdu : VCardAPDU) : Prop :=
  apdu.aIns = Ins.getResponse ∨ apdu.aIns = Ins.verify
    ∨ (apdu.aIns = Ins.selectFile ∧ apdu.aP1 ≠ 0x02)

theorem quiet_done {p : Option VCardAppletPrivate} {aLe : ℕ} (status : UInt16) :
    Quiet p s aLe ⟨.done, some (vcardMakeResponse status), p, s⟩ :=
  .answer (r := (vcardMakeResponse status, s)) (.status status)

theorem quiet_status (status : UInt16) :
    Quiet (some p) s apdu.aLe (Handled.withStatus p s status) := quiet_done status

/-- A handler whose answer is computed. -/
theorem quiet_of_answered {x : Except Fault (VCardResponse × Session τ)} {aLe : ℕ}
    (h : ∃ r, x = .ok r ∧ Answered s aLe r) :
    ∃ r, (do return Handled.answer p (← x)) = (.ok r : Except Fault (Handled τ))
      ∧ Quiet (some p) s aLe r := by
  obtain ⟨r, rfl, hr⟩ := h
  exact ⟨_, rfl, .answer hr⟩

/-- A command whose body must have a certain length. -/
theorem quiet_of_length {n : ℕ} {status : UInt16} {x : Except Fault (Handled τ)}
    (h : apdu.aLc = n → ∃ r, x = .ok r ∧ Quiet (some p) s apdu.aLe r) :
    ∃ r, (if apdu.aLc ≠ n then return .withStatus p s status else x) = .ok r
      ∧ Quiet (some p) s apdu.aLe r := by
  by_cases hn : apdu.aLc = n
  · rw [if_neg (not_not.2 hn)]
    exact h hn
  · rw [if_pos hn]
    exact ⟨_, rfl, quiet_status _⟩

section All

theorem getProperties_ok (h : PropertiesOk p) {n : ℕ} {tags : Bytes} (aLe : ℕ)
    (hn : n ≤ (p.properties.tlv shared).length) (htags : tags.length < 2 ^ 16) :
    ∃ r, getProperties s (p.properties.tlv shared) n tags aLe = .ok r ∧ Answered s aLe r :=
  getProperties_answered aLe hn (h.encodable shared)
    (Nat.lt_of_le_of_lt hn (h.length_lt shared)) htags

theorem cacCommonProcessApdu_quiet (h : PropertiesOk p) :
    ∃ r, cacCommonProcessApdu shared p s apdu = .ok r ∧ Quiet (some p) s apdu.aLe r := by
  have hbody : apdu.body.length < 2 ^ 16 := by
    rw [apdu.length_body]
    exact apdu.aLc_lt
  unfold cacCommonProcessApdu
  dsimp only
  split
  · by_cases hP2 : apdu.aP2 ≠ 0x00
    · rw [if_pos hP2]
      exact ⟨_, rfl, quiet_status _⟩
    rw [if_neg hP2]
    split
    · exact ⟨_, rfl, quiet_status _⟩
    · exact quiet_of_length fun _ =>
        quiet_of_answered (getProperties_ok h _ (h.propertiesLen_le _) (by simp))
    · by_cases hLc : apdu.aLc = 0
      · rw [if_pos hLc]
        exact ⟨_, rfl, quiet_status _⟩
      rw [if_neg hLc]
      exact quiet_of_answered (getProperties_ok h _ (h.propertiesLen_le _) hbody)
    · exact quiet_of_answered (getProperties_ok h _ (h.longPropertiesLen_le _) (by simp))
    · exact ⟨_, rfl, quiet_status _⟩
  · split_ifs
    · exact ⟨_, rfl, .pass⟩
    · exact ⟨_, rfl, quiet_status _⟩
    · exact ⟨_, rfl, quiet_status _⟩
    · exact ⟨_, rfl, quiet_status _⟩
  · exact ⟨_, rfl, .pass⟩
  · exact ⟨_, rfl, .pass⟩
  · exact ⟨_, rfl, quiet_status _⟩

theorem readFile_answered (file : Option Bytes) (size offset : ℕ) (aLe : ℕ) :
    ∃ r, readFile s file size offset aLe = .ok r ∧ Answered s aLe r := by
  unfold readFile
  dsimp only
  split_ifs with hneg
  · exact ⟨_, rfl, .status _⟩
  · have hlen : (((file.getD []).drop offset).length : ℤ) = (file.getD []).length - offset := by
      rw [List.length_drop]
      omega
    obtain ⟨n, hn⟩ := Int.eq_ofNat_of_zero_le (Int.not_lt.1 hneg)
    rw [hn, vcardResponseNewBytes_eq (by omega)]
    exact ⟨_, rfl, .payload _ _⟩

/-- READ BUFFER, which no applet passes on. -/
theorem cacCommonProcessApduRead_answered (hins : apdu.aIns = Ins.cacReadBuffer) :
    ∃ r, cacCommonProcessApduRead shared p s apdu = .ok (.answer p r) ∧ Answered s apdu.aLe r := by
  unfold cacCommonProcessApduRead
  split
  · by_cases hLc : apdu.aLc ≠ 2
    · rw [if_pos hLc]
      exact ⟨_, rfl, .status _⟩
    have hlen := apdu.length_body
    have h1 : 1 < apdu.body.length := by omega
    rw [if_neg hLc, readByte_of_lt h1, readByte_of_lt (by omega), ok_bind, ok_bind]
    have hread : ∀ file, ∃ r, (do
        return Handled.answer p (← readFile s file apdu.body[1].toNat
          (bebytes2ushort apdu.aP1 apdu.aP2) apdu.aLe)) = .ok (.answer p r)
          ∧ Answered s apdu.aLe r := fun file => by
      obtain ⟨r, hr, hans⟩ := readFile_answered (s := s) file apdu.body[1].toNat
        (bebytes2ushort apdu.aP1 apdu.aP2) apdu.aLe
      exact ⟨r, by rw [hr]; rfl, hans⟩
    split
    · exact hread _
    · exact hread _
    · exact ⟨_, rfl, .status _⟩
  · rename_i hupdate
    rw [hins] at hupdate
    exact absurd hupdate (by decide)
  · rename_i hread _
    exact absurd hins hread

theorem cacCommonProcessApduRead_quiet (shared : ByteArr 5) (h : PropertiesOk p) :
    ∃ r, cacCommonProcessApduRead shared p s apdu = .ok r ∧ Quiet (some p) s apdu.aLe r := by
  by_cases hins : apdu.aIns = Ins.cacReadBuffer
  · obtain ⟨r, hr, hans⟩ := cacCommonProcessApduRead_answered (p := p) (s := s)
      hins
    exact ⟨_, hr, .answer hans⟩
  unfold cacCommonProcessApduRead
  split
  · exact absurd ‹_› hins
  · exact ⟨_, rfl, quiet_status _⟩
  · exact cacCommonProcessApdu_quiet h

end All

/-- What GET ACR is answered with. Only the answers to some queries for whole tables can have more
than 268 bytes, and they are as long as the tables. -/
inductive AcaAnswered (s : Session τ) (apdu : VCardAPDU) (pkiApplets : ℕ) :
    VCardResponse × Session τ → Prop
  | status (hno : apdu.aLc = 0 → tableLength apdu.aP1 pkiApplets = none) (status : UInt16) :
    AcaAnswered s apdu pkiApplets (vcardMakeResponse status, s)
  | short (hno : apdu.aLc = 0 → tableLength apdu.aP1 pkiApplets = none) {payload : Bytes}
    (hlen : payload.length ≤ 268) :
    AcaAnswered s apdu pkiApplets (respond s payload apdu.aLe Status.success)
  | table (hLc : apdu.aLc = 0) {payload : Bytes}
    (htable : tableLength apdu.aP1 pkiApplets = some payload.length) :
    AcaAnswered s apdu pkiApplets (respond s payload apdu.aLe Status.success)

theorem AcaAnswered.answered {pkiApplets : ℕ} {r : VCardResponse × Session τ}
    (h : AcaAnswered s apdu pkiApplets r) : Answered s apdu.aLe r := by
  cases h with
  | status _ status => exact .status status
  | short | table => exact .payload _ _

/-- The lengths of the tables, for as many PKI applets as there can be. -/
theorem tables_length {n : ℕ} (h : n ≤ maxPkiApplets) :
    (appletAcrPayload n .simpleTlv).length = 406 + 24 * n
      ∧ (appletAcrPayload n .extended).length = 358 + 21 * n
      ∧ (servicePayload n .simpleTlv).length = 154 + 12 * n
      ∧ (servicePayload n .extended).length ≤ 268 :=
  (show ∀ n ≤ maxPkiApplets, (appletAcrPayload n .simpleTlv).length = 406 + 24 * n
    ∧ (appletAcrPayload n .extended).length = 358 + 21 * n
    ∧ (servicePayload n .simpleTlv).length = 154 + 12 * n
    ∧ (servicePayload n .extended).length ≤ 268 by decide +kernel) n h

section Aca

variable {pkiApplets : ℕ}

/-- A handler whose answer is computed. -/
theorem aca_of_response {x : Except Fault (VCardResponse × Session τ)}
    (h : ∃ r, x = .ok r ∧ AcaAnswered s apdu pkiApplets r) :
    ∃ r, (do return Handled.answer p (← x)) = (.ok (.answer p r) : Except Fault (Handled τ))
      ∧ AcaAnswered s apdu pkiApplets r := by
  obtain ⟨r, rfl, hr⟩ := h
  exact ⟨r, rfl, hr⟩

theorem aca_of_option {x : Except Fault (Option VCardResponse × Session τ)}
    (h : ∃ r, x = .ok (some r.1, r.2) ∧ AcaAnswered s apdu pkiApplets r) :
    ∃ r, (do let (r, s) ← x; return ⟨.done, r, some p, s⟩)
        = (.ok (.answer p r) : Except Fault (Handled τ)) ∧ AcaAnswered s apdu pkiApplets r := by
  obtain ⟨r, rfl, hr⟩ := h
  exact ⟨r, rfl, hr⟩

/-- A command whose body must have a certain length. -/
theorem aca_of_length {n : ℕ} {status : UInt16} {x : Except Fault (Handled τ)}
    (hno : n = 0 ∨ tableLength apdu.aP1 pkiApplets = none)
    (h : apdu.aLc = n → ∃ r, x = .ok (.answer p r) ∧ AcaAnswered s apdu pkiApplets r) :
    ∃ r, (if apdu.aLc ≠ n then return .withStatus p s status else x) = .ok (.answer p r)
      ∧ AcaAnswered s apdu pkiApplets r := by
  by_cases hn : apdu.aLc = n
  · rw [if_neg (not_not.2 hn)]
    exact h hn
  · rw [if_pos hn]
    refine ⟨_, rfl, .status (fun h0 => ?_) _⟩
    rcases hno with rfl | hno
    · exact absurd h0 hn
    · exact hno

theorem acr_answered (hno : tableLength apdu.aP1 pkiApplets = none) (acrid : Option UInt8)
    (format : AcrFormat) : ∃ r, cacAcaGetAcrResponse s apdu.aLe acrid format = .ok r
      ∧ AcaAnswered s apdu pkiApplets r := by
  rcases cacAcaGetAcrResponse_cases acrid format with h | ⟨payload, hlen, h⟩
  · exact ⟨_, h, .status (fun _ => hno) _⟩
  · exact ⟨_, h, .short (fun _ => hno) (hlen.trans (by decide))⟩

/-- The whole applet ACR table, in the format of P1. -/
theorem acr_whole (hle : pkiApplets ≤ maxPkiApplets) {b : UInt8} {format : AcrFormat}
    (hP1 : apdu.aP1 = b)
    (hformat : (if apdu.aP1 &&& 0x40 ≠ 0 then AcrFormat.extended else .simpleTlv) = format)
    (htable : tableLength b pkiApplets = some (appletAcrPayload pkiApplets format).length) :
    ∃ r, (if apdu.aLc ≠ 0 then return .withStatus p s Status.errorDataInvalid else do
      let (r, s) ← cacAcaGetAppletAcrResponse s apdu.aLe pkiApplets .all
        (if apdu.aP1 &&& 0x40 ≠ 0 then .extended else .simpleTlv)
      return ⟨.done, r, some p, s⟩) = (.ok (.answer p r) : Except Fault (Handled τ))
      ∧ AcaAnswered s apdu pkiApplets r :=
  aca_of_length (.inl rfl) fun hLc => aca_of_option
    ⟨_, cacAcaGetAppletAcrResponse_all hle _, .table hLc (by rw [hformat, hP1, htable])⟩

/-- One entry of the applet ACR table. -/
theorem acr_one {b : UInt8} {n : ℕ} {query : AcrQuery} (hP1 : apdu.aP1 = b)
    (hb : tableLength b pkiApplets = none)
    (hformat : (if apdu.aP1 &&& 0x40 ≠ 0 then AcrFormat.extended else .simpleTlv) = .simpleTlv)
    (hall : query ≠ .all) (hnil : apdu.aLc = n → query ≠ .aid []) :
    ∃ r, (if apdu.aLc ≠ n then return .withStatus p s Status.errorDataInvalid else do
      let (r, s) ← cacAcaGetAppletAcrResponse s apdu.aLe pkiApplets query
        (if apdu.aP1 &&& 0x40 ≠ 0 then .extended else .simpleTlv)
      return ⟨.done, r, some p, s⟩) = (.ok (.answer p r) : Except Fault (Handled τ))
      ∧ AcaAnswered s apdu pkiApplets r := by
  rw [← hP1] at hb
  refine aca_of_length (.inr hb) fun hLc => aca_of_option ?_
  rw [hformat]
  rcases cacAcaGetAppletAcrResponse_one pkiApplets hall (hnil hLc) with
    ⟨status, h⟩ | ⟨payload, hlen, h⟩
  · exact ⟨_, h, .status (fun _ => hb) status⟩
  · exact ⟨_, h, .short (fun _ => hb) (hlen.trans (by decide))⟩

/-- GET ACR -/
theorem cacAppletAcaProcessApdu_acr (shared : ByteArr 5) (hu : p.u = .acaData pkiApplets)
    (hle : pkiApplets ≤ maxPkiApplets) (hins : apdu.aIns = Ins.cacGetAcr)
    (hP2 : apdu.aP2 = 0x00) :
    ∃ r, cacAppletAcaProcessApdu shared p s apdu = .ok (.answer p r)
      ∧ AcaAnswered s apdu pkiApplets r := by
  have hbody := apdu.length_body
  obtain ⟨happlets, happletsExt, hservices, hservicesExt⟩ := tables_length hle
  have hnone : ∀ {b : UInt8}, apdu.aP1 = b → tableLength b pkiApplets = none →
      tableLength apdu.aP1 pkiApplets = none := fun h hb => h ▸ hb
  simp only [cacAppletAcaProcessApdu, hu, acaData, ok_bind]
  split
  swap
  · exact absurd hins ‹_›
  rw [if_neg (not_not.2 hP2)]
  split
  iterate 3
    rename_i hP1
    exact aca_of_length (.inl rfl) fun _ => aca_of_response (acr_answered (hnone hP1 rfl) _ _)
  · rename_i hP1
    refine aca_of_length (.inr (hnone hP1 rfl)) fun hLc => ?_
    rw [readByte_of_lt (by omega), ok_bind]
    exact aca_of_response (acr_answered (hnone hP1 rfl) _ _)
  · rename_i hP1
    exact acr_whole hle hP1 (by rw [hP1]; rfl) (congrArg some happlets.symm)
  iterate 3
    rename_i hP1
    exact acr_whole hle hP1 (by rw [hP1]; rfl) (congrArg some happletsExt.symm)
  · rename_i hP1
    refine acr_one hP1 rfl (by rw [hP1]; rfl) nofun fun hLc hnil => ?_
    rw [AcrQuery.aid.inj hnil] at hbody
    exact absurd (hbody.trans hLc) (by decide)
  · rename_i hP1
    exact acr_one hP1 rfl (by rw [hP1]; rfl) nofun fun _ => nofun
  iterate 2
    rename_i hP1
    refine aca_of_length (.inl rfl) fun _ => aca_of_response ?_
    obtain ⟨payload, hlen, h⟩ := cacAcaGetAmpResponse_eq (s := s) _
    exact ⟨_, h, .short (fun _ => hnone hP1 rfl) (hlen.trans (by decide))⟩
  · rename_i hP1
    refine aca_of_length (.inl rfl) fun hLc => aca_of_response
      ⟨_, cacAcaGetServiceResponse_eq hle _, .table hLc ?_⟩
    rw [hP1]
    exact congrArg some hservices.symm
  · rename_i hP1
    refine aca_of_length (.inl rfl) fun hLc => aca_of_response
      ⟨_, cacAcaGetServiceResponse_eq hle _, .short (fun _ => hnone hP1 rfl) ?_⟩
    rw [hP1]
    exact hservicesExt
  · rename_i h00 h40 h41 h01 h10 h50 h51 h52 h11 h12 h20 h60 h21 h61
    refine ⟨_, rfl, .status (fun _ => ?_) _⟩
    unfold tableLength
    split <;> simp_all

theorem cacAppletAcaProcessApdu_other (shared : ByteArr 5) (hu : p.u = .acaData pkiApplets)
    (hins : apdu.aIns ≠ Ins.cacGetAcr) :
    cacAppletAcaProcessApdu shared p s apdu = cacCommonProcessApdu shared p s apdu := by
  simp only [cacAppletAcaProcessApdu, hu, acaData, ok_bind]
  split
  · exact absurd ‹_› hins
  · rfl

theorem cacAppletAcaProcessApdu_quiet (shared : ByteArr 5) (h : PropertiesOk p)
    (hu : p.u = .acaData pkiApplets) (hle : pkiApplets ≤ maxPkiApplets) :
    ∃ r, cacAppletAcaProcessApdu shared p s apdu = .ok r ∧ Quiet (some p) s apdu.aLe r := by
  by_cases hins : apdu.aIns = Ins.cacGetAcr
  · by_cases hP2 : apdu.aP2 = 0x00
    · obtain ⟨r, hr, hans⟩ := cacAppletAcaProcessApdu_acr (s := s) shared hu hle hins hP2
      exact ⟨_, hr, .answer hans.answered⟩
    · simp only [cacAppletAcaProcessApdu, hu, acaData, ok_bind, hins, hP2, ne_eq,
        not_false_eq_true, if_true]
      exact ⟨_, rfl, quiet_status _⟩
  · rw [cacAppletAcaProcessApdu_other shared hu hins]
    exact cacCommonProcessApdu_quiet h

end Aca

section Pki

variable {signBuffer : Bytes} {key : VCardKey}

theorem pkiProcessApdu_collect (hu : p.u = .pkiData signBuffer key) (hsigns : apdu.Signs)
    (hP1 : apdu.aP1 = 0x80) (hlen : signBuffer.length + apdu.aLc < 2 ^ 31) :
    cacAppletPkiProcessApdu shared emul p s apdu
      = .ok (.withStatus { p with u := .pkiData (signBuffer ++ apdu.body) key } s
        Status.success) := by
  unfold cacAppletPkiProcessApdu
  rw [hu, pkiData, ok_bind]
  simp only [hsigns.1, hsigns.2, ne_eq, not_true, if_false, Nat.not_le.2 hlen, hP1]
  rfl

/-- The session after an operation. -/
def operated (emul : Emul τ) (s : Session τ) (key : VCardKey) (input : Bytes) : Session τ :=
  { s with token := (emul.rsaOp s.token key input).2.2 }.log (.rsaOp key input)

theorem pkiProcessApdu_operate_eq (hu : p.u = .pkiData signBuffer key) (hsigns : apdu.Signs)
    (hP1 : apdu.aP1 = 0x00) (hlen : signBuffer.length + apdu.aLc < 2 ^ 31) :
    cacAppletPkiProcessApdu shared emul p s apdu =
      if (emul.rsaOp s.token key (signBuffer ++ apdu.body)).1 = Status.success then
        .ok (.answer { p with u := .pkiData [] key }
          (respond (operated emul s key (signBuffer ++ apdu.body))
            (emul.rsaOp s.token key (signBuffer ++ apdu.body)).2.1 apdu.aLe Status.success))
      else .ok (.withStatus { p with u := .pkiData [] key }
        (operated emul s key (signBuffer ++ apdu.body))
        (emul.rsaOp s.token key (signBuffer ++ apdu.body)).1) := by
  have hout := emul.rsaOp_length s.token key (signBuffer ++ apdu.body)
  unfold cacAppletPkiProcessApdu
  rw [hu, pkiData, ok_bind]
  simp only [hsigns.1, hsigns.2, ne_eq, not_true, if_false, Nat.not_le.2 hlen, hP1]
  by_cases hstatus : (emul.rsaOp s.token key (signBuffer ++ apdu.body)).1 = Status.success
  · rw [← hout, vcardResponseNew_all]
    simp only [hstatus, not_true, if_false, if_true]
    rfl
  · simp only [hstatus, not_false_eq_true, if_true, if_false]
    rfl

theorem pkiProcessApdu_operate (hu : p.u = .pkiData signBuffer key) (hsigns : apdu.Signs)
    (hP1 : apdu.aP1 = 0x00) (hlen : signBuffer.length + apdu.aLc < 2 ^ 31) :
    ∃ r, cacAppletPkiProcessApdu shared emul p s apdu
        = .ok (.answer { p with u := .pkiData [] key } r)
      ∧ Answered ({ s with token := (emul.rsaOp s.token key (signBuffer ++ apdu.body)).2.2 }.log
        (.rsaOp key (signBuffer ++ apdu.body))) apdu.aLe r := by
  rw [pkiProcessApdu_operate_eq hu hsigns hP1 hlen]
  split_ifs
  · exact ⟨_, rfl, .payload _ _⟩
  · exact ⟨_, rfl, .status _⟩

theorem pkiProcessApdu_drop (hu : p.u = .pkiData signBuffer key) (hsigns : apdu.Signs)
    (hP1 : apdu.aP1 ≠ 0x80) (hP1' : apdu.aP1 ≠ 0x00)
    (hlen : signBuffer.length + apdu.aLc < 2 ^ 31) :
    cacAppletPkiProcessApdu shared emul p s apdu
      = .ok (.withStatus { p with u := .pkiData [] key } s Status.errorP1P2Incorrect) := by
  unfold cacAppletPkiProcessApdu
  rw [hu, pkiData, ok_bind]
  simp only [hsigns.1, hsigns.2, ne_eq, not_true, if_false, Nat.not_le.2 hlen]
  split
  · rename_i hins
    exact absurd hins (by decide)
  · rfl
  · rename_i hins
    exact absurd rfl hins

theorem pkiProcessApdu_overflow (hu : p.u = .pkiData signBuffer key) (hsigns : apdu.Signs)
    (hlen : 2 ^ 31 ≤ signBuffer.length + apdu.aLc) :
    cacAppletPkiProcessApdu shared emul p s apdu = .error .overflow := by
  unfold cacAppletPkiProcessApdu
  rw [hu, pkiData, ok_bind]
  simp only [hsigns.1, hsigns.2, ne_eq, not_true, if_false, hlen, if_true]
  rfl

theorem pkiProcessApdu_quiet (shared : ByteArr 5) (emul : Emul τ) (h : PropertiesOk p)
    (hu : p.u = .pkiData signBuffer key) (hsigns : ¬ apdu.Signs) :
    ∃ r, cacAppletPkiProcessApdu shared emul p s apdu = .ok r ∧ Quiet (some p) s apdu.aLe r := by
  unfold cacAppletPkiProcessApdu
  rw [hu, pkiData, ok_bind]
  dsimp only
  split
  · exact ⟨_, rfl, quiet_status _⟩
  · rename_i hins
    rw [if_pos fun hP2 => hsigns ⟨hins, hP2⟩]
    exact ⟨_, rfl, quiet_status _⟩
  · exact cacCommonProcessApduRead_quiet _ h

end Pki

section Passthrough

variable {label : String}

theorem passthroughProcessApdu_quiet (shared : ByteArr 5) (emul : Emul τ) (h : PropertiesOk p)
    (hu : p.u = .ptData label)
    (hcached : ¬ (apdu.aIns = Ins.cacReadBuffer ∧ (p.tagBuffer = none ∨ p.valBuffer = none))) :
    ∃ r, cacPassthroughContainerProcessApdu shared emul p s apdu = .ok r
      ∧ Quiet (some p) s apdu.aLe r := by
  unfold cacPassthroughContainerProcessApdu
  rw [hu, ptData, ok_bind, if_neg hcached]
  exact cacCommonProcessApduRead_quiet _ h

theorem passthroughProcessApdu_fetch (shared : ByteArr 5) {tagBuffer valBuffer : Option Bytes}
    (hu : p.u = .ptData label) (hins : apdu.aIns = Ins.cacReadBuffer)
    (hnull : p.tagBuffer = none ∨ p.valBuffer = none)
    (hfiles : passthroughFiles (emul.readObject s.token label).1 = .ok (tagBuffer, valBuffer)) :
    ∃ r, cacPassthroughContainerProcessApdu shared emul p s apdu
        = .ok (.answer { p with tagBuffer := tagBuffer, valBuffer := valBuffer } r)
      ∧ Answered ({ s with token := (emul.readObject s.token label).2 }.log (.readObject label))
        apdu.aLe r := by
  unfold cacPassthroughContainerProcessApdu
  rw [hu, ptData, ok_bind, if_pos ⟨hins, hnull⟩]
  dsimp only
  rw [hfiles, ok_bind]
  exact cacCommonProcessApduRead_answered hins

theorem passthroughProcessApdu_error {e : Fault} (hu : p.u = .ptData label)
    (hins : apdu.aIns = Ins.cacReadBuffer) (hnull : p.tagBuffer = none ∨ p.valBuffer = none)
    (hfiles : passthroughFiles (emul.readObject s.token label).1 = .error e) :
    cacPassthroughContainerProcessApdu shared emul p s apdu = .error e := by
  unfold cacPassthroughContainerProcessApdu
  rw [hu, ptData, ok_bind, if_pos ⟨hins, hnull⟩]
  dsimp only
  rw [hfiles]
  rfl

theorem passthroughFiles_eq {data : Bytes} {ms : List SimpletlvMember} (hlt : data.length < 2 ^ 32)
    (hparse : simpletlvParse data = .ok ms) :
    passthroughFiles (some data) =
      if FileOverflows .tl ms ∨ FileOverflows .value ms then .error .overflow
      else .ok (fileOf .tl ms, fileOf .value ms) := by
  obtain ⟨ms', hparse', hparsed, hle⟩ := exists_parsed data
  obtain rfl : ms' = ms := Except.ok.inj (hparse'.symm.trans hparse)
  have htl := cacCreateFile_eq hparsed.flat hparsed.sized
    (show SimpletlvBufferType.tl ≠ .both by decide)
    (Nat.lt_of_le_of_lt (hle _) hlt)
  have hvalue := cacCreateFile_eq hparsed.flat hparsed.sized
    (show SimpletlvBufferType.value ≠ .both by decide)
    (Nat.lt_of_le_of_lt (hle _) hlt)
  simp only [passthroughFiles, hparse, ok_bind, cacCreateTlFile, cacCreateValFile, htl, hvalue]
  by_cases h1 : FileOverflows .tl ms'
  · rw [if_pos (show FileOverflows .tl ms' ∨ FileOverflows .value ms' from .inl h1), if_pos h1]
    rfl
  rw [if_neg h1, ok_bind]
  by_cases h2 : FileOverflows .value ms'
  · rw [if_pos (show FileOverflows .tl ms' ∨ FileOverflows .value ms' from .inr h2), if_pos h2]
    rfl
  rw [if_neg (not_or.2 ⟨h1, h2⟩), if_neg h2]
  rfl

/-- The files of what the token has, unless a length is no `int`. -/
theorem passthroughFiles_readObject (token : τ) (label : String) :
    (∃ files, passthroughFiles (emul.readObject token label).1 = .ok files)
      ∨ ∃ data ms, (emul.readObject token label).1 = some data ∧ simpletlvParse data = .ok ms
        ∧ (FileOverflows .tl ms ∨ FileOverflows .value ms)
        ∧ passthroughFiles (emul.readObject token label).1 = .error .overflow := by
  rcases hdata : (emul.readObject token label).1 with _ | data
  · exact .inl ⟨_, rfl⟩
  obtain ⟨ms, hparse, -⟩ := exists_parsed data
  have hfiles := passthroughFiles_eq (emul.readObject_length token label data hdata) hparse
  by_cases hover : FileOverflows .tl ms ∨ FileOverflows .value ms
  · rw [if_pos hover] at hfiles
    exact .inr ⟨data, ms, rfl, hparse, hover, hfiles⟩
  · rw [if_neg hover] at hfiles
    exact .inl ⟨_, hfiles⟩

end Passthrough

section GpAndMsft

theorem gpProcessApdu_outcome {p : Option VCardAppletPrivate} :
    ∃ r, VCardProcessAPDU.gp.run emul st p s apdu = .ok r ∧ Outcome emul st .gp p s apdu r := by
  unfold VCardProcessAPDU.run gpAppletContainerProcessApdu
  dsimp only
  split
  · by_cases hcplp : bebytes2ushort apdu.aP1 apdu.aP2 = 0x9f7f
    · have hsize : ((cplpDataOf s.serial s.serialLen st.cplpData).1.length : ℤ) = cplpDataSize := by
        rw [(cplpDataOf s.serial s.serialLen st.cplpData).2]
      rw [if_pos hcplp, ← hsize, vcardResponseNew_all]
      exact ⟨_, rfl, .serial (.payload _ _)⟩
    rw [if_neg hcplp]
    by_cases hdata : bebytes2ushort apdu.aP1 apdu.aP2 = 0x0066
    · rw [if_pos hdata, vcardResponseNew_all]
      exact ⟨_, rfl, .quiet (.answer (.payload _ _))⟩
    · rw [if_neg hdata]
      exact ⟨_, rfl, .quiet (quiet_done _)⟩
  · exact ⟨_, rfl, .quiet .pass⟩

theorem msftProcessApdu_outcome {p : Option VCardAppletPrivate} :
    ∃ r, VCardProcessAPDU.msft.run emul st p s apdu = .ok r
      ∧ Outcome emul st .msft p s apdu r := by
  unfold VCardProcessAPDU.run msftAppletContainerProcessApdu
  dsimp only
  split
  · by_cases hdata : bebytes2ushort apdu.aP1 apdu.aP2 = 0x7f68
    · rw [if_pos hdata, vcardResponseNew_all]
      exact ⟨_, rfl, .windows (.payload _ _)⟩
    · rw [if_neg hdata]
      exact ⟨_, rfl, .quiet (quiet_done _)⟩
  · exact ⟨_, rfl, .quiet .pass⟩

end GpAndMsft

section AnyApplet

/-- A handler on its applet: it goes through, or a number it computes is no `int`. -/
def Runs (emul : Emul τ) (st : Statics) (a : VCardApplet) (s : Session τ) (apdu : VCardAPDU) :
    Prop :=
  (∃ r, a.processApdu.run emul st a.appletPrivate s apdu = .ok r
      ∧ Outcome emul st a.processApdu a.appletPrivate s apdu r
      ∧ ∀ p, a.appletPrivate = some p → ¬ HandlerOverflows emul apdu p s.token a.processApdu)
    ∨ (a.processApdu.run emul st a.appletPrivate s apdu = .error .overflow
      ∧ ∃ p, a.appletPrivate = some p ∧ HandlerOverflows emul apdu p s.token a.processApdu)

theorem runs_pki {aid : Bytes} {signBuffer : Bytes} {key : VCardKey} (h : PropertiesOk p)
    (hu : p.u = .pkiData signBuffer key) :
    Runs emul st ⟨.cacPki, some .pki, aid, some p⟩ s apdu := by
  have hno : ¬ (apdu.Signs ∧ 2 ^ 31 ≤ signBuffer.length + apdu.aLc) →
      ∀ q, some p = some q → ¬ HandlerOverflows emul apdu q s.token .cacPki := by
    rintro hnot q ⟨⟩ hover
    cases hover with
    | sign hu' hsigns hlen =>
      rw [hu] at hu'
      cases hu'
      exact hnot ⟨hsigns, hlen⟩
  by_cases hsigns : apdu.Signs
  · by_cases hlen : 2 ^ 31 ≤ signBuffer.length + apdu.aLc
    · refine .inr ⟨?_, p, rfl, .sign hu hsigns hlen⟩
      simp only [VCardProcessAPDU.run, assertPrivate, ok_bind,
        pkiProcessApdu_overflow hu hsigns hlen]
      rfl
    have hlt := Nat.lt_of_not_le hlen
    have hno := hno fun h => hlen h.2
    left
    simp only [VCardProcessAPDU.run, assertPrivate, ok_bind]
    by_cases hP1 : apdu.aP1 = 0x80
    · rw [pkiProcessApdu_collect hu hsigns hP1 hlt]
      exact ⟨_, rfl, .handle rfl (.collect hu hsigns hP1) (.status _), hno⟩
    by_cases hP1' : apdu.aP1 = 0x00
    · obtain ⟨r, hr, hans⟩ := pkiProcessApdu_operate (s := s) hu hsigns hP1' hlt
      rw [hr]
      exact ⟨_, rfl, .handle rfl (.operate hu hsigns hP1') hans, hno⟩
    · rw [pkiProcessApdu_drop hu hsigns hP1 hP1' hlt]
      exact ⟨_, rfl, .handle rfl (.drop hu hsigns hP1 hP1') (.status _), hno⟩
  · obtain ⟨r, hr, hquiet⟩ := pkiProcessApdu_quiet st.cccBufferProperties
      emul (s := s) h hu hsigns
    refine .inl ⟨(r, st), ?_, .quiet hquiet, hno fun h => hsigns h.1⟩
    simp only [VCardProcessAPDU.run, assertPrivate, ok_bind, hr, pure_eq]

theorem runs_passthrough {aid : Bytes} {label : String} (h : PropertiesOk p)
    (hu : p.u = .ptData label) :
    Runs emul st ⟨.cacPassthrough, some .passthrough, aid, some p⟩ s apdu := by
  by_cases hfetch : apdu.aIns = Ins.cacReadBuffer ∧ (p.tagBuffer = none ∨ p.valBuffer = none)
  · obtain ⟨hins, hnull⟩ := hfetch
    rcases passthroughFiles_readObject s.token label with
      ⟨⟨tagBuffer, valBuffer⟩, hfiles⟩ | ⟨data, ms, hdata, hparse, hover, hfiles⟩
    · obtain ⟨r, hr, hans⟩ := passthroughProcessApdu_fetch st.cccBufferProperties
        hu hins hnull hfiles
      refine .inl ⟨_, ?_, .handle rfl (.fetch hu hins hnull hfiles) hans, ?_⟩
      · simp only [VCardProcessAPDU.run, assertPrivate, ok_bind, hr, pure_eq]
      · rintro q ⟨⟩ hover
        cases hover with
        | fetch hu' _ _ hdata hparse hover =>
          rw [hu] at hu'
          cases hu'
          have heq := passthroughFiles_eq (emul.readObject_length _ _ _ hdata) hparse
          rw [if_pos hover, ← hdata, hfiles] at heq
          cases heq
    · refine .inr ⟨?_, p, rfl, .fetch hu hins hnull hdata hparse hover⟩
      simp only [VCardProcessAPDU.run, assertPrivate, ok_bind,
        passthroughProcessApdu_error hu hins hnull hfiles]
      rfl
  · obtain ⟨r, hr, hquiet⟩ := passthroughProcessApdu_quiet st.cccBufferProperties
      emul (s := s) h hu hfetch
    refine .inl ⟨(r, st), ?_, .quiet hquiet, ?_⟩
    · simp only [VCardProcessAPDU.run, assertPrivate, ok_bind, hr, pure_eq]
    · rintro q ⟨⟩ hover
      cases hover with
      | fetch _ hins hnull => exact hfetch ⟨hins, hnull⟩

theorem runs_of_ok {a : VCardApplet} (hok : AppletOk a) : Runs emul st a s apdu := by
  cases hok with
  | pki h hu => exact runs_pki h hu
  | passthrough h hu => exact runs_passthrough h hu
  | commonRead h =>
    obtain ⟨r, hr, hquiet⟩ := cacCommonProcessApduRead_quiet st.cccBufferProperties (s := s) h
    refine .inl ⟨(r, st), ?_, .quiet hquiet, fun _ _ h => nomatch h⟩
    simp only [VCardProcessAPDU.run, assertPrivate, ok_bind, hr, pure_eq]
  | aca h hu hle =>
    obtain ⟨r, hr, hquiet⟩ := cacAppletAcaProcessApdu_quiet st.cccBufferProperties
      (s := s) h hu hle
    refine .inl ⟨(r, st), ?_, .quiet hquiet, fun _ _ h => nomatch h⟩
    simp only [VCardProcessAPDU.run, assertPrivate, ok_bind, hr, pure_eq]
  | gp =>
    obtain ⟨r, hr, hout⟩ := gpProcessApdu_outcome (s := s) (p := none)
    exact .inl ⟨r, hr, hout, fun _ h => nomatch h⟩
  | msft =>
    obtain ⟨r, hr, hout⟩ := msftProcessApdu_outcome (s := s) (p := none)
    exact .inl ⟨r, hr, hout, fun _ h => nomatch h⟩

end AnyApplet

section ToIso

theorem cacCommonProcessApdu_pass (shared : ByteArr 5) (h : apdu.PassedOn) :
    cacCommonProcessApdu shared p s apdu = .ok (.pass (some p) s) := by
  unfold cacCommonProcessApdu
  rcases h with h | h | ⟨h, hP1⟩
  · simp only [h]
    rfl
  · simp only [h]
    rfl
  · simp only [h, if_pos hP1]
    rfl

theorem cacCommonProcessApduRead_pass (shared : ByteArr 5) (h : apdu.PassedOn) :
    cacCommonProcessApduRead shared p s apdu = .ok (.pass (some p) s) := by
  have hpass := cacCommonProcessApdu_pass shared (p := p) (s := s) h
  unfold cacCommonProcessApduRead
  rcases h with h | h | ⟨h, hP1⟩ <;> simp only [h] <;> exact hpass

/-- CAC, Global Platform and Microsoft applets alike pass these commands on. -/
theorem run_pass {a : VCardApplet} (hok : AppletOk a) (h : apdu.PassedOn) :
    a.processApdu.run emul st a.appletPrivate s apdu = .ok (.pass a.appletPrivate s, st) := by
  have hcommon := fun p =>
    cacCommonProcessApdu_pass st.cccBufferProperties (p := p) (s := s) h
  have hread := fun p =>
    cacCommonProcessApduRead_pass st.cccBufferProperties (p := p) (s := s) h
  cases hok with
  | commonRead => simp only [VCardProcessAPDU.run, assertPrivate, ok_bind, hread, pure_eq]
  | pki _ hu =>
    simp only [VCardProcessAPDU.run, assertPrivate, ok_bind, cacAppletPkiProcessApdu, hu, pkiData]
    rcases h with h | h | ⟨h, hP1⟩ <;> simp only [h] <;> rw [hread] <;> rfl
  | aca _ hu =>
    simp only [VCardProcessAPDU.run, assertPrivate, ok_bind, cacAppletAcaProcessApdu, hu, acaData]
    rcases h with h | h | ⟨h, hP1⟩ <;> simp only [h] <;> rw [hcommon] <;> rfl
  | passthrough _ hu =>
    have hins : apdu.aIns ≠ Ins.cacReadBuffer := by
      rcases h with h | h | ⟨h, -⟩ <;> rw [h] <;> decide
    simp only [VCardProcessAPDU.run, assertPrivate, ok_bind, cacPassthroughContainerProcessApdu,
      hu, ptData, hins, false_and, if_false, hread]
    rfl
  | gp =>
    simp only [VCardProcessAPDU.run, gpAppletContainerProcessApdu]
    rcases h with h | h | ⟨h, hP1⟩ <;> simp only [h] <;> rfl
  | msft =>
    simp only [VCardProcessAPDU.run, msftAppletContainerProcessApdu]
    rcases h with h | h | ⟨h, hP1⟩ <;> simp only [h] <;> rfl

end ToIso

end Libcacard
