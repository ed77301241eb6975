import Libcacard.Proofs.GetResponse
import Libcacard.Transfer

/-!
# Which answers are transferred whole

Few commands can have more than 268 bytes of data in their answer, and only when they ask for more:
GET RESPONSE, an operation with a key, GET PROPERTIES for many tags, and three of the tables of the
ACA. All others are answered with less, so their answers get to the client whole.
-/

namespace Libcacard

open Machine

variable {τ : Type} {emul : Emul τ}

section Amounts

theorem bLen_makeResponse (status : UInt16) : (vcardMakeResponse status).bLen = 0 := by
  unfold vcardMakeResponse
  split_ifs <;> rfl

theorem bLen_respond (s : Session τ) (payload : Bytes) (aLe : ℕ) (status : UInt16) :
    (respond s payload aLe status).1.bLen = if aLe < payload.length then 0 else payload.length := by
  unfold respond
  split_ifs <;> rfl

theorem bLen_respond_le (s : Session τ) (payload : Bytes) (aLe : ℕ) (status : UInt16) :
    (respond s payload aLe status).1.bLen ≤ payload.length := by
  rw [bLen_respond]
  split_ifs
  · exact Nat.zero_le _
  · exact Nat.le_refl _

/-- An answer with data has all of the payload. -/
theorem long_respond_iff (s : Session τ) (payload : Bytes) (aLe : ℕ) (status : UInt16) :
    268 < (respond s payload aLe status).1.bLen
      ↔ 268 < payload.length ∧ payload.length ≤ aLe := by
  rw [bLen_respond]
  split_ifs <;> omega

/-- A handler answers a command with more than 268 bytes of data, and otherwise with fewer. -/
def Handled.Long (h : Handled τ) : Prop := ∃ r, h.response = some r ∧ 268 < r.bLen

theorem not_long_pass (p : Option VCardAppletPrivate) (s : Session τ) :
    ¬ (Handled.pass p s).Long := fun ⟨_, h, _⟩ => nomatch h

theorem long_answer_iff (p : VCardAppletPrivate) (r : VCardResponse × Session τ) :
    (Handled.answer p r).Long ↔ 268 < r.1.bLen :=
  ⟨fun ⟨_, h, hlen⟩ => Option.some.inj h ▸ hlen, fun h => ⟨_, rfl, h⟩⟩

theorem not_long_status (p : VCardAppletPrivate) (s : Session τ) (status : UInt16) :
    ¬ (Handled.withStatus p s status).Long := by
  rw [Handled.withStatus, long_answer_iff, bLen_makeResponse]
  omega

end Amounts

section FilesAndProperties

variable {shared : ByteArr 5} {p : VCardAppletPrivate} {s : Session τ} {apdu : VCardAPDU}

theorem readFile_bLen {file : Option Bytes} {size offset aLe : ℕ} {r : VCardResponse × Session τ}
    (h : readFile s file size offset aLe = .ok r) : r.1.bLen ≤ size := by
  unfold readFile at h
  dsimp only at h
  split_ifs at h with hneg
  · rw [← Except.ok.inj h, bLen_makeResponse]
    exact Nat.zero_le _
  · have hlen : (((file.getD []).drop offset).length : ℤ) = (file.getD []).length - offset := by
      rw [List.length_drop]
      omega
    obtain ⟨n, hn⟩ := Int.eq_ofNat_of_zero_le (Int.not_lt.1 hneg)
    rw [hn, vcardResponseNewBytes_eq (by omega)] at h
    have hle := bLen_respond_le s (((file.getD []).drop offset).take n) aLe
      ((0x90 : UInt8).toUInt16 <<< 8 ||| (0x00 : UInt8).toUInt16)
    rw [← Except.ok.inj h]
    refine hle.trans ?_
    rw [List.length_take]
    omega

/-- GET PROPERTIES has a long answer just if it says its length. -/
theorem getProperties_long_iff {n : ℕ} {tags : Bytes} {aLe : ℕ} (hok : PropertiesOk p)
    (hn : n ≤ (p.properties.tlv shared).length) (htags : tags.length < 2 ^ 16)
    {r : VCardResponse × Session τ}
    (h : getProperties s (p.properties.tlv shared) n tags aLe = .ok r) :
    268 < r.1.bLen ↔ ∃ cp, askedProperties (p.properties.tlv shared) n tags = some cp
      ∧ 268 < (serialise cp).length ∧ (serialise cp).length = aLe := by
  rcases hasked : askedProperties (p.properties.tlv shared) n tags with _ | cp
  · rw [getProperties_none aLe hn hasked] at h
    rw [← Except.ok.inj h, bLen_makeResponse]
    simp
  · obtain ⟨hlen, hmem⟩ := askedProperties_mem hasked
    have hlt := Nat.lt_of_le_of_lt hn (hok.length_lt shared)
    rw [getProperties_eq aLe hn (fun m hm => hok.encodable shared m (hmem m hm)) (by omega)
      hasked] at h
    simp only [Option.some.injEq, exists_eq_left']
    split_ifs at h with hnil
    · rw [← Except.ok.inj h, bLen_makeResponse, hnil]
      simp
    · rw [← Except.ok.inj h]
      unfold propertiesReply
      split_ifs with hLe
      · change 268 < 0 ↔ _
        omega
      · rw [long_respond_iff]
        omega

/-- GET PROPERTIES on an applet has a long answer. -/
def LongProperties (shared : ByteArr 5) (apdu : VCardAPDU) (p : VCardAppletPrivate) : Prop :=
  apdu.aIns = Ins.cacGetProperties ∧ apdu.aP2 = 0x00 ∧ ∃ n tags cp, apdu.AsksTags p n tags
    ∧ askedProperties (p.properties.tlv shared) n tags = some cp
    ∧ 268 < (serialise cp).length ∧ (serialise cp).length = apdu.aLe

theorem LongProperties.longData {emul : Emul τ} {token : τ} (h : LongProperties shared apdu p) :
    LongData emul shared token apdu p := by
  obtain ⟨hins, hP2, n, tags, cp, hasks, hcp, hlen, hle⟩ := h
  exact .properties hins hP2 hasks hcp hlen hle

theorem cacCommonProcessApdu_asks {n : ℕ} {tags : Bytes} (hins : apdu.aIns = Ins.cacGetProperties)
    (hP2 : apdu.aP2 = 0x00) (hasks : apdu.AsksTags p n tags) :
    cacCommonProcessApdu shared p s apdu = (do
      return .answer p (← getProperties s (p.properties.tlv shared) n tags apdu.aLe)) := by
  unfold cacCommonProcessApdu
  cases hasks with
  | all hP1 hLc =>
    simp only [hins, hP2, hP1, hLc, ne_eq, not_true, if_false]
    rfl
  | tags hP1 hLc =>
    simp only [hins, hP2, hP1, hLc, ne_eq, not_true, if_false]
    rfl
  | long hP1 =>
    simp only [hins, hP2, hP1, ne_eq, not_true, if_false]
    rfl

/-- A GET PROPERTIES that asks for nothing is refused. -/
theorem cacCommonProcessApdu_refused (hins : apdu.aIns = Ins.cacGetProperties)
    (hno : apdu.aP2 = 0x00 → ∀ n tags, ¬ apdu.AsksTags p n tags) :
    ∃ status ∈ staticStatuses,
      cacCommonProcessApdu shared p s apdu = .ok (.withStatus p s status) := by
  unfold cacCommonProcessApdu
  dsimp only
  split
  · by_cases hP2 : apdu.aP2 = 0x00
    · rw [if_neg (not_not.2 hP2)]
      split
      · exact ⟨Status.errorP1P2Incorrect, by decide, rfl⟩
      · exact ⟨Status.errorDataInvalid, by decide,
          if_pos fun hLc => hno hP2 _ _ (.all ‹_› hLc)⟩
      · rename_i hP1
        by_cases hLc : apdu.aLc = 0
        · exact ⟨Status.errorDataInvalid, by decide, if_pos hLc⟩
        · exact absurd (.tags hP1 hLc) (hno hP2 _ _)
      · exact absurd (.long ‹_›) (hno hP2 _ _)
      · exact ⟨Status.errorP1P2Incorrect, by decide, rfl⟩
    · exact ⟨Status.errorP1P2Incorrect, by decide, if_pos hP2⟩
  iterate 3
    rename_i h
    exact absurd (hins.symm.trans h) (by decide)
  · exact absurd hins ‹_›

/-- A command that does not ask for properties is answered with a status or passed on. -/
theorem cacCommonProcessApdu_cases {h : Handled τ}
    (heq : cacCommonProcessApdu shared p s apdu = .ok h) :
    (∃ n tags, apdu.aIns = Ins.cacGetProperties ∧ apdu.aP2 = 0x00 ∧ apdu.AsksTags p n tags)
      ∨ h = .pass (some p) s ∨ ∃ status, h = .withStatus p s status := by
  by_cases hins : apdu.aIns = Ins.cacGetProperties
  · by_cases hasks : apdu.aP2 = 0x00 ∧ ∃ n tags, apdu.AsksTags p n tags
    · obtain ⟨hP2, n, tags, htags⟩ := hasks
      exact .inl ⟨n, tags, hins, hP2, htags⟩
    · obtain ⟨status, -, hstatus⟩ := cacCommonProcessApdu_refused hins
        fun hP2 n tags htags => hasks ⟨hP2, n, tags, htags⟩
      exact .inr (.inr ⟨status, Except.ok.inj (heq.symm.trans hstatus)⟩)
  right
  have hstatus : ∀ {status : UInt16},
      (.ok (.withStatus p s status) : Except Fault (Handled τ)) = .ok h →
      h = .pass (some p) s ∨ ∃ status, h = .withStatus p s status :=
    fun hs => .inr ⟨_, (Except.ok.inj hs).symm⟩
  unfold cacCommonProcessApdu at heq
  dsimp only at heq
  split at heq
  · exact absurd ‹_› hins
  · split_ifs at heq
    · exact .inl (Except.ok.inj heq).symm
    · exact hstatus heq
    · exact hstatus heq
    · exact hstatus heq
  · exact .inl (Except.ok.inj heq).symm
  · exact .inl (Except.ok.inj heq).symm
  · exact hstatus heq

theorem cacCommonProcessApdu_long_iff (hok : PropertiesOk p) {h : Handled τ}
    (heq : cacCommonProcessApdu shared p s apdu = .ok h) :
    h.Long ↔ LongProperties shared apdu p := by
  have hbody : apdu.body.length < 2 ^ 16 := by
    rw [apdu.length_body]
    exact apdu.aLc_lt
  -- a query, when there is one
  have hquery : ∀ {n tags}, apdu.aIns = Ins.cacGetProperties → apdu.aP2 = 0x00 →
      apdu.AsksTags p n tags → (h.Long ↔ ∃ cp, askedProperties (p.properties.tlv shared) n tags
        = some cp ∧ 268 < (serialise cp).length ∧ (serialise cp).length = apdu.aLe) := by
    intro n tags hins hP2 hasks
    rw [cacCommonProcessApdu_asks hins hP2 hasks] at heq
    simp only [bind_eq_ok, pure_eq, Except.ok.injEq] at heq
    obtain ⟨r, hr, rfl⟩ := heq
    rw [long_answer_iff]
    refine getProperties_long_iff hok ?_ ?_ hr <;> cases hasks
    · exact hok.propertiesLen_le shared
    · exact hok.propertiesLen_le shared
    · exact hok.longPropertiesLen_le shared
    · exact show 0 < 2 ^ 16 by decide
    · exact hbody
    · exact show 0 < 2 ^ 16 by decide
  constructor
  · intro hlong
    rcases cacCommonProcessApdu_cases heq with ⟨n, tags, hins, hP2, hasks⟩ | rfl | ⟨_, rfl⟩
    · obtain ⟨cp, hcp, hlen, hle⟩ := (hquery hins hP2 hasks).1 hlong
      exact ⟨hins, hP2, n, tags, cp, hasks, hcp, hlen, hle⟩
    · exact absurd hlong (not_long_pass _ _)
    · exact absurd hlong (not_long_status _ _ _)
  · rintro ⟨hins, hP2, n, tags, cp, hasks, hcp, hlen, hle⟩
    exact (hquery hins hP2 hasks).2 ⟨cp, hcp, hlen, hle⟩

/-- A file is read in parts of at most 255 bytes. -/
theorem cacCommonProcessApduRead_long_iff (hok : PropertiesOk p) {h : Handled τ}
    (heq : cacCommonProcessApduRead shared p s apdu = .ok h) :
    h.Long ↔ LongProperties shared apdu p := by
  have hne : apdu.aIns ≠ Ins.cacGetProperties → ¬ LongProperties shared apdu p :=
    fun hins h => hins h.1
  unfold cacCommonProcessApduRead at heq
  split at heq
  · rename_i hins
    refine iff_of_false ?_ (hne (by rw [hins]; decide))
    by_cases hLc : apdu.aLc = 2
    · rw [if_neg (not_not.2 hLc)] at heq
      simp only [bind_eq_ok] at heq
      obtain ⟨size, -, op, -, heq⟩ := heq
      have hread : ∀ file, (do return Handled.answer p (← readFile s file size.toNat
          (bebytes2ushort apdu.aP1 apdu.aP2) apdu.aLe)) = .ok h → ¬ h.Long := by
        intro file hfile
        simp only [bind_eq_ok, pure_eq, Except.ok.injEq] at hfile
        obtain ⟨r, hr, rfl⟩ := hfile
        have := readFile_bLen hr
        have := size.toNat_lt
        rw [long_answer_iff]
        omega
      split at heq
      · exact hread _ heq
      · exact hread _ heq
      · exact Except.ok.inj heq ▸ not_long_status _ _ _
    · rw [if_pos hLc] at heq
      exact Except.ok.inj heq ▸ not_long_status _ _ _
  · rename_i hins
    exact iff_of_false (Except.ok.inj heq ▸ not_long_status _ _ _) (hne (by rw [hins]; decide))
  · exact cacCommonProcessApdu_long_iff hok heq

end FilesAndProperties

section Applets

variable {shared : ByteArr 5} {p : VCardAppletPrivate} {s : Session τ} {apdu : VCardAPDU}

theorem longData_iff_plain (token : τ) (hpki : ∀ signBuffer key, p.u ≠ .pkiData signBuffer key)
    (haca : ∀ n, p.u ≠ .acaData n) :
    LongData emul shared token apdu p ↔ LongProperties shared apdu p := by
  refine ⟨fun h => ?_, LongProperties.longData⟩
  cases h with
  | sign hu => exact absurd hu (hpki _ _)
  | properties hins hP2 hasks hcp hlen hle => exact ⟨hins, hP2, _, _, _, hasks, hcp, hlen, hle⟩
  | table hu => exact absurd hu (haca _)

theorem AcaAnswered.long_iff {n : ℕ} {r : VCardResponse × Session τ}
    (h : AcaAnswered s apdu n r) : 268 < r.1.bLen ↔ ∃ len, apdu.aLc = 0
      ∧ tableLength apdu.aP1 n = some len ∧ 268 < len ∧ len ≤ apdu.aLe := by
  have hnone : (apdu.aLc = 0 → tableLength apdu.aP1 n = none) → ¬ ∃ len, apdu.aLc = 0
      ∧ tableLength apdu.aP1 n = some len ∧ 268 < len ∧ len ≤ apdu.aLe := by
    rintro hno ⟨len, hLc, htable, -⟩
    cases (hno hLc).symm.trans htable
  cases h with
  | status hno =>
    rw [bLen_makeResponse]
    exact iff_of_false (by omega) (hnone hno)
  | short hno hlen =>
    rw [long_respond_iff]
    exact iff_of_false (by omega) (hnone hno)
  | table hLc htable =>
    rw [long_respond_iff]
    constructor
    · rintro ⟨hlen, hle⟩
      exact ⟨_, hLc, htable, hlen, hle⟩
    · rintro ⟨len, -, htable', hlen, hle⟩
      obtain rfl := Option.some.inj (htable.symm.trans htable')
      exact ⟨hlen, hle⟩

theorem acaProcessApdu_long_iff {n : ℕ} {h : Handled τ} (hok : PropertiesOk p)
    (hu : p.u = .acaData n) (hle : n ≤ maxPkiApplets)
    (heq : cacAppletAcaProcessApdu shared p s apdu = .ok h) :
    h.Long ↔ LongData emul shared s.token apdu p := by
  by_cases hins : apdu.aIns = Ins.cacGetAcr
  · have hprops : ¬ LongProperties shared apdu p := fun h => by
      have := hins.symm.trans h.1
      exact absurd this (by decide)
    have hdata : LongData emul shared s.token apdu p ↔ apdu.aP2 = 0x00 ∧ ∃ len, apdu.aLc = 0
        ∧ tableLength apdu.aP1 n = some len ∧ 268 < len ∧ len ≤ apdu.aLe := by
      constructor
      · intro h
        cases h with
        | sign hu' => cases hu.symm.trans hu'
        | properties hins' => exact absurd (hins.symm.trans hins') (by decide)
        | table hu' _ hP2 hLc htable hlen hle =>
          cases hu.symm.trans hu'
          exact ⟨hP2, _, hLc, htable, hlen, hle⟩
      · rintro ⟨hP2, len, hLc, htable, hlen, hle⟩
        exact .table hu hins hP2 hLc htable hlen hle
    rw [hdata]
    by_cases hP2 : apdu.aP2 = 0x00
    · obtain ⟨r, hr, hans⟩ := cacAppletAcaProcessApdu_acr (s := s) shared hu hle hins hP2
      obtain rfl := Except.ok.inj (hr.symm.trans heq)
      rw [long_answer_iff, hans.long_iff]
      exact ⟨fun h => ⟨hP2, h⟩, fun h => h.2⟩
    · simp only [cacAppletAcaProcessApdu, hu, acaData, ok_bind, hins, hP2, ne_eq,
        not_false_eq_true, if_true] at heq
      obtain rfl := Except.ok.inj heq
      exact iff_of_false (not_long_status _ _ _) fun h => hP2 h.1
  · rw [cacAppletAcaProcessApdu_other shared hu hins] at heq
    rw [cacCommonProcessApdu_long_iff hok heq]
    refine ⟨LongProperties.longData, fun h => ?_⟩
    cases h with
    | sign hu' => cases hu.symm.trans hu'
    | properties hins hP2 hasks hcp hlen hle => exact ⟨hins, hP2, _, _, _, hasks, hcp, hlen, hle⟩
    | table _ hins' => exact absurd hins' hins

theorem pkiProcessApdu_long_iff {signBuffer : Bytes} {key : VCardKey} {h : Handled τ}
    (hok : PropertiesOk p) (hu : p.u = .pkiData signBuffer key)
    (heq : cacAppletPkiProcessApdu shared emul p s apdu = .ok h) :
    h.Long ↔ LongData emul shared s.token apdu p := by
  by_cases hsigns : apdu.Signs
  · have hlen : signBuffer.length + apdu.aLc < 2 ^ 31 := by
      by_contra hlen
      rw [pkiProcessApdu_overflow hu hsigns (Nat.le_of_not_lt hlen)] at heq
      cases heq
    have hdata : LongData emul shared s.token apdu p ↔ apdu.aP1 = 0x00
        ∧ (emul.rsaOp s.token key (signBuffer ++ apdu.body)).1 = Status.success
        ∧ 268 < (emul.rsaOp s.token key (signBuffer ++ apdu.body)).2.1.length
        ∧ (emul.rsaOp s.token key (signBuffer ++ apdu.body)).2.1.length ≤ apdu.aLe := by
      constructor
      · intro h
        cases h with
        | sign hu' _ hP1 hok hlen hle =>
          cases hu.symm.trans hu'
          exact ⟨hP1, hok, hlen, hle⟩
        | properties hins' => exact absurd (hsigns.1.symm.trans hins') (by decide)
        | table hu' => cases hu.symm.trans hu'
      · rintro ⟨hP1, hok, hlen, hle⟩
        exact .sign hu hsigns hP1 hok hlen hle
    rw [hdata]
    by_cases hP1 : apdu.aP1 = 0x00
    · rw [pkiProcessApdu_operate_eq hu hsigns hP1 hlen] at heq
      split_ifs at heq with hstatus
      · rw [← Except.ok.inj heq, long_answer_iff, long_respond_iff]
        exact ⟨fun h => ⟨hP1, hstatus, h⟩, fun h => h.2.2⟩
      · rw [← Except.ok.inj heq]
        exact iff_of_false (not_long_status _ _ _) fun h => hstatus h.2.1
    · refine iff_of_false ?_ fun h => hP1 h.1
      by_cases hP1' : apdu.aP1 = 0x80
      · rw [pkiProcessApdu_collect hu hsigns hP1' hlen] at heq
        exact Except.ok.inj heq ▸ not_long_status _ _ _
      · rw [pkiProcessApdu_drop hu hsigns hP1' hP1 hlen] at heq
        exact Except.ok.inj heq ▸ not_long_status _ _ _
  · have hdata : LongData emul shared s.token apdu p ↔ LongProperties shared apdu p := by
      refine ⟨fun h => ?_, LongProperties.longData⟩
      cases h with
      | sign _ hsigns' => exact absurd hsigns' hsigns
      | properties hins hP2 hasks hcp hlen hle =>
        exact ⟨hins, hP2, _, _, _, hasks, hcp, hlen, hle⟩
      | table hu' => cases hu.symm.trans hu'
    rw [hdata]
    unfold cacAppletPkiProcessApdu at heq
    rw [hu, pkiData, ok_bind] at heq
    dsimp only at heq
    split at heq
    · rename_i hins
      exact iff_of_false (Except.ok.inj heq ▸ not_long_status _ _ _)
        fun h => absurd (hins.symm.trans h.1) (by decide)
    · rename_i hins
      rw [if_pos fun hP2 => hsigns ⟨hins, hP2⟩] at heq
      exact iff_of_false (Except.ok.inj heq ▸ not_long_status _ _ _)
        fun h => absurd (hins.symm.trans h.1) (by decide)
    · exact cacCommonProcessApduRead_long_iff hok heq

theorem passthroughProcessApdu_long_iff {label : String} {h : Handled τ} (hok : PropertiesOk p)
    (hu : p.u = .ptData label)
    (heq : cacPassthroughContainerProcessApdu shared emul p s apdu = .ok h) :
    h.Long ↔ LongData emul shared s.token apdu p := by
  rw [longData_iff_plain s.token (fun _ _ hu' => nomatch hu.symm.trans hu')
    fun _ hu' => nomatch hu.symm.trans hu']
  unfold cacPassthroughContainerProcessApdu at heq
  rw [hu, ptData, ok_bind] at heq
  by_cases hfetch : apdu.aIns = Ins.cacReadBuffer ∧ (p.tagBuffer = none ∨ p.valBuffer = none)
  · rw [if_pos hfetch] at heq
    simp only [bind_eq_ok] at heq
    obtain ⟨⟨tagBuffer, valBuffer⟩, -, heq⟩ := heq
    have hok' : PropertiesOk
        { p with tagBuffer := tagBuffer, valBuffer := valBuffer, u := .ptData label } :=
      ⟨hok.1, hok.2, hok.3, hok.4⟩
    have hins : ∀ q, ¬ LongProperties shared apdu q := fun q h =>
      absurd (hfetch.1.symm.trans h.1) (by decide)
    exact iff_of_false (mt (cacCommonProcessApduRead_long_iff hok' heq).1 (hins _)) (hins _)
  · rw [if_neg hfetch] at heq
    exact cacCommonProcessApduRead_long_iff hok heq

/-- An answer from a buffer of at most 268 bytes. -/
theorem bLen_le_of_buffer {buf : Bytes} {status : UInt16} {aLe : ℕ}
    {r : VCardResponse × Session τ} (hbuf : buf.length ≤ 268)
    (h : vcardResponseNew s buf buf.length aLe status = .ok r) : r.1.bLen ≤ 268 := by
  rw [vcardResponseNew_all] at h
  rw [← Except.ok.inj h]
  exact (bLen_respond_le _ _ _ _).trans hbuf

theorem gpProcessApdu_not_long {p : Option VCardAppletPrivate} {st st' : Statics} {h : Handled τ}
    (heq : VCardProcessAPDU.gp.run emul st p s apdu = .ok (h, st')) : ¬ h.Long := by
  unfold VCardProcessAPDU.run gpAppletContainerProcessApdu at heq
  dsimp only at heq
  have hresponse : ∀ {buf : Bytes} {r : VCardResponse × Session τ}, buf.length ≤ 268 →
      vcardResponseNew s buf buf.length apdu.aLe Status.success = .ok r →
      ¬ (⟨.done, some r.1, p, r.2⟩ : Handled τ).Long := by
    rintro buf r hbuf hr ⟨r', hr', hlen⟩
    have := bLen_le_of_buffer hbuf hr
    rw [Option.some.inj hr'] at this
    omega
  split at heq
  · by_cases hcplp : bebytes2ushort apdu.aP1 apdu.aP2 = 0x9f7f
    · have hsize := (cplpDataOf s.serial s.serialLen st.cplpData).2
      rw [if_pos hcplp, show (cplpDataSize : ℤ)
        = (cplpDataOf s.serial s.serialLen st.cplpData).1.length by rw [hsize]] at heq
      simp only [bind_eq_ok, pure_eq, Except.ok.injEq, Prod.mk.injEq] at heq
      obtain ⟨-, ⟨r, hr, rfl⟩, rfl, -⟩ := heq
      exact hresponse (by rw [hsize]; decide) hr
    rw [if_neg hcplp] at heq
    by_cases hdata : bebytes2ushort apdu.aP1 apdu.aP2 = 0x0066
    · rw [if_pos hdata] at heq
      simp only [bind_eq_ok, pure_eq, Except.ok.injEq, Prod.mk.injEq] at heq
      obtain ⟨-, ⟨r, hr, rfl⟩, rfl, -⟩ := heq
      exact hresponse (by decide) hr
    · rw [if_neg hdata] at heq
      obtain ⟨rfl, -⟩ := Prod.mk.inj (Except.ok.inj heq)
      rintro ⟨r, hr, hlen⟩
      rw [← Option.some.inj hr, bLen_makeResponse] at hlen
      omega
  · obtain ⟨rfl, -⟩ := Prod.mk.inj (Except.ok.inj heq)
    exact not_long_pass _ _

theorem msftProcessApdu_not_long {p : Option VCardAppletPrivate} {st st' : Statics} {h : Handled τ}
    (heq : VCardProcessAPDU.msft.run emul st p s apdu = .ok (h, st')) : ¬ h.Long := by
  unfold VCardProcessAPDU.run msftAppletContainerProcessApdu at heq
  dsimp only at heq
  split at heq
  · by_cases hdata : bebytes2ushort apdu.aP1 apdu.aP2 = 0x7f68
    · rw [if_pos hdata] at heq
      simp only [bind_eq_ok, pure_eq, Except.ok.injEq, Prod.mk.injEq] at heq
      obtain ⟨-, ⟨r, hr, rfl⟩, rfl, -⟩ := heq
      rintro ⟨r', hr', hlen⟩
      have := bLen_le_of_buffer (by decide) hr
      rw [Option.some.inj hr'] at this
      omega
    · rw [if_neg hdata] at heq
      obtain ⟨rfl, -⟩ := Prod.mk.inj (Except.ok.inj heq)
      rintro ⟨r, hr, hlen⟩
      rw [← Option.some.inj hr, bLen_makeResponse] at hlen
      omega
  · obtain ⟨rfl, -⟩ := Prod.mk.inj (Except.ok.inj heq)
    exact not_long_pass _ _

/-- Any applet. -/
theorem AppletOk.long_iff {a : VCardApplet} (hok : AppletOk a) {st st' : Statics} {h : Handled τ}
    (heq : a.processApdu.run emul st a.appletPrivate s apdu = .ok (h, st')) :
    h.Long ↔ ∃ p, a.appletPrivate = some p
      ∧ LongData emul st.cccBufferProperties s.token apdu p := by
  have hsome : ∀ {p : VCardAppletPrivate},
      (h.Long ↔ LongData emul st.cccBufferProperties s.token apdu p) →
      (h.Long ↔ ∃ q, some p = some q ∧ LongData emul st.cccBufferProperties s.token apdu q) :=
    fun h => h.trans (by simp only [Option.some.injEq, exists_eq_left'])
  cases hok with
  | pki hprops hu =>
    simp only [VCardProcessAPDU.run, assertPrivate, ok_bind, bind_eq_ok, pure_eq, Except.ok.injEq,
      Prod.mk.injEq] at heq
    obtain ⟨h', heq, rfl, -⟩ := heq
    exact hsome (pkiProcessApdu_long_iff hprops hu heq)
  | passthrough hprops hu =>
    simp only [VCardProcessAPDU.run, assertPrivate, ok_bind, bind_eq_ok, pure_eq, Except.ok.injEq,
      Prod.mk.injEq] at heq
    obtain ⟨h', heq, rfl, -⟩ := heq
    exact hsome (passthroughProcessApdu_long_iff hprops hu heq)
  | commonRead hprops hu =>
    simp only [VCardProcessAPDU.run, assertPrivate, ok_bind, bind_eq_ok, pure_eq, Except.ok.injEq,
      Prod.mk.injEq] at heq
    obtain ⟨h', heq, rfl, -⟩ := heq
    refine hsome ((cacCommonProcessApduRead_long_iff hprops heq).trans
      (longData_iff_plain s.token (fun _ _ hu' => ?_) fun _ hu' => ?_).symm)
    · rw [hu'] at hu
      rcases hu with hu | hu <;> cases hu
    · rw [hu'] at hu
      rcases hu with hu | hu <;> cases hu
  | aca hprops hu hle =>
    simp only [VCardProcessAPDU.run, assertPrivate, ok_bind, bind_eq_ok, pure_eq, Except.ok.injEq,
      Prod.mk.injEq] at heq
    obtain ⟨h', heq, rfl, -⟩ := heq
    exact hsome (acaProcessApdu_long_iff hprops hu hle heq)
  | gp =>
    refine iff_of_false (gpProcessApdu_not_long heq) ?_
    rintro ⟨_, h, _⟩
    cases h
  | msft =>
    refine iff_of_false (msftProcessApdu_not_long heq) ?_
    rintro ⟨_, h, _⟩
    cases h

end Applets

section Iso

variable {s : Session τ} {apdu : VCardAPDU}

/-- The answer to a command has more than 268 bytes of data. -/
def Processed.Long (r : Processed τ) : Prop := ∃ response, r.response = some response
  ∧ 268 < response.bLen

theorem processed_long_answer_iff (card : VCard τ) (response : VCardResponse) :
    (Processed.answer card response).Long ↔ 268 < response.bLen :=
  ⟨fun ⟨_, h, hlen⟩ => Option.some.inj h ▸ hlen, fun h => ⟨_, rfl, h⟩⟩

theorem processed_not_long_status (card : VCard τ) (status : UInt16) :
    ¬ (Processed.withStatus card status).Long := by
  rw [Processed.withStatus, processed_long_answer_iff, bLen_makeResponse]
  omega

theorem length_fci_le {aid : Bytes} (h : aid.length ≤ 16) : (fci aid).length ≤ 268 := by
  unfold fci
  split_ifs
  · decide
  · simp only [List.length_append, List.length_cons, List.length_nil]
    omega

theorem vmSelectFile_not_long {card : VCard τ} (hok : CardOk card) (hiso : apdu.IsIso)
    (hins : apdu.aIns = Ins.selectFile) {r : Processed τ} (h : vmSelectFile card apdu = .ok r) :
    ¬ r.Long := by
  by_cases hP1 : apdu.aP1 = 0x04
  · have hselects : apdu.Selects apdu.body := ⟨hiso, hins, hP1, rfl⟩
    rcases hfind : vcardFindApplet card.applets apdu.body with _ | i
    · unfold vmSelectFile at h
      rw [if_neg (not_not.2 hP1)] at h
      simp only [hfind, vcardSelectApplet_none, ok_bind, if_true] at h
      exact Except.ok.inj h ▸ processed_not_long_status _ _
    · obtain ⟨a, ha, haid⟩ := vcardFindApplet_eq_some hfind
      obtain ⟨response, s, hr, hans⟩ := vmSelectFile_found hok hselects hfind ha
      have hlen := length_fci_le (haid ▸ (hok.applets a (List.mem_of_getElem? ha)).2)
      have hle := bLen_respond_le card.toSession (fci apdu.body) apdu.aLe Status.success
      rw [hr] at h
      rw [← Except.ok.inj h, processed_long_answer_iff]
      rw [hans] at hle
      dsimp only at hle
      omega
  · unfold vmSelectFile at h
    rw [if_pos hP1] at h
    exact Except.ok.inj h ▸ processed_not_long_status _ _

theorem vmVerify_not_long (card : VCard τ) : ¬ (vmVerify emul card apdu).Long := by
  unfold vmVerify
  split_ifs
  · exact processed_not_long_status _ _
  · dsimp only
    split_ifs
    · exact processed_not_long_status _ _
    · exact processed_not_long_status _ _
    all_goals
      rw [processed_long_answer_iff]
      exact show ¬ 268 < 0 by decide
  · exact processed_not_long_status _ _

/-- A command asks for more than 268 of the bytes that are pending. -/
def LongPending (card : VCard τ) (apdu : VCardAPDU) : Prop :=
  apdu.IsIso ∧ apdu.aIns = Ins.getResponse ∧ ∃ b, card.bufferResponse = some b
    ∧ 268 < min b.len apdu.aLe

theorem vmGetResponse_long_iff {card : VCard τ} {r : Processed τ}
    (h : vmGetResponse card apdu = .ok r) :
    r.Long ↔ ∃ b, card.bufferResponse = some b ∧ 268 < min b.len apdu.aLe := by
  rcases hb : card.bufferResponse with _ | b
  · unfold vmGetResponse at h
    rw [hb] at h
    rw [← Except.ok.inj h]
    exact iff_of_false (processed_not_long_status _ _) fun ⟨_, h, _⟩ => nomatch h
  · rw [vmGetResponse_some apdu hb] at h
    rw [← Except.ok.inj h, processed_long_answer_iff]
    simp only [dataResponse, List.length_take, b.length_remaining, Option.some.injEq,
      exists_eq_left']
    omega

theorem vcard7816VmProcessApdu_long_iff {card : VCard τ} (hok : CardOk card) {r : Processed τ}
    (h : vcard7816VmProcessApdu emul card apdu = .ok r) : r.Long ↔ LongPending card apdu := by
  unfold vcard7816VmProcessApdu at h
  split_ifs at h with hgen hsm
  · exact iff_of_false (Except.ok.inj h ▸ processed_not_long_status _ _) fun hl => hgen hl.1.1
  · exact iff_of_false (Except.ok.inj h ▸ processed_not_long_status _ _) fun hl => hsm hl.1.2
  · have hiso : apdu.IsIso := ⟨not_not.1 hgen, not_not.1 hsm⟩
    have hother : ∀ {b : UInt8}, apdu.aIns = b → b ≠ Ins.getResponse → ¬ LongPending card apdu :=
      fun hb hne hl => hne (hb.symm.trans hl.2.1)
    split at h
    · exact iff_of_false (vmSelectFile_not_long hok hiso ‹_› h) (hother ‹_› (by decide))
    · exact iff_of_false (Except.ok.inj h ▸ vmVerify_not_long card) (hother ‹_› (by decide))
    · rename_i hins
      rw [vmGetResponse_long_iff h]
      exact ⟨fun hb => ⟨hiso, hins, hb⟩, fun hb => hb.2.2⟩
    · rename_i hins
      exact iff_of_false (Except.ok.inj h ▸ processed_not_long_status _ _)
        fun hl => hins hl.2.1

end Iso

section AnyCommand

theorem longPending_start {card : VCard τ} :
    LongPending (card.start apdu) apdu ↔ LongPending card apdu := by
  unfold LongPending
  refine and_congr_right fun _ => and_congr_right fun hins => ?_
  rw [VCard.start, if_pos hins]

/-- The answer to a command has more than 268 bytes of data if and only if these are asked for. -/
theorem vcardProcessApdu_long_iff {card : VCard τ} (hok : CardOk card) {r : Processed τ}
    (hr : vcardProcessApdu emul card apdu = .ok r) : r.Long ↔ LongAnswer emul card apdu := by
  have hpassed (happlet : ∀ i a p, card.currentApplet apdu.channel = some i →
      card.applets[i]? = some a → a.appletPrivate = some p →
      ¬ LongData emul card.statics.cccBufferProperties card.token apdu p)
      (h : vcardProcessApdu emul card apdu = vcard7816VmProcessApdu emul (card.start apdu) apdu) :
      r.Long ↔ LongAnswer emul card apdu := by
    rw [h] at hr
    rw [vcard7816VmProcessApdu_long_iff hok.start hr, longPending_start]
    constructor
    · rintro ⟨hiso, hins, b, hb, hlen⟩
      exact .pending hiso hins hb hlen
    · intro h
      cases h with
      | pending hiso hins hb hlen => exact ⟨hiso, hins, _, hb, hlen⟩
      | applet hi ha hp h => exact absurd h (happlet _ _ _ hi ha hp)
  rcases hi : card.currentApplet apdu.channel with _ | i
  · exact hpassed (fun i a p hi' => by rw [hi] at hi'; cases hi')
      (vcardProcessApdu_passed hok (vcardProcessAppletApdu_none hi))
  obtain ⟨a, ha⟩ : ∃ a, card.applets[i]? = some a :=
    ⟨_, List.getElem?_eq_getElem (hok.current _ _ hi)⟩
  have haok := (hok.applets a (List.mem_of_getElem? ha)).1
  have huniq : ∀ {j b}, card.currentApplet apdu.channel = some j → card.applets[j]? = some b →
      b = a := fun hj hb => by
    obtain rfl := Option.some.inj (hi.symm.trans hj)
    exact Option.some.inj (hb.symm.trans ha)
  rcases vcardProcessApdu_applet emul hok hi ha with
    ⟨e, -, he⟩ | ⟨hrun, hpass⟩ | ⟨h, st', hrun, hnext, hprocess⟩
  · rw [he] at hr
    cases hr
  · have hlong := haok.long_iff hrun
    refine hpassed (fun j b p hj hb hp hdata => ?_) hpass
    obtain rfl := huniq hj hb
    exact not_long_pass _ _ (hlong.2 ⟨p, hp, hdata⟩)
  · have hlong := haok.long_iff hrun
    rw [hprocess] at hr
    rw [← Except.ok.inj hr]
    refine Iff.trans hlong ⟨fun ⟨p, hp, hdata⟩ => .applet hi ha hp hdata, fun hl => ?_⟩
    cases hl with
    | pending _ hins =>
      rw [run_pass haok (.inl hins)] at hrun
      obtain ⟨rfl, -⟩ := Prod.mk.inj (Except.ok.inj hrun)
      exact absurd rfl hnext
    | applet hj hb hp hdata =>
      obtain rfl := huniq hj hb
      exact ⟨_, hp, hdata⟩

end AnyCommand

section Inside

/-- The data of an answer: none, and a payload there was is pending, or the whole payload. -/
theorem Answered.data {r : VCardResponse × Session τ} {aLe : ℕ} (h : Answered s aLe r)
    (hcalls : NoResponse s.calls) : ∃ data, r.1.bData = data ++ [r.1.bSw1, r.1.bSw2]
      ∧ data.length = r.1.bLen
      ∧ (∀ p Le, .response p Le ∈ r.2.calls →
        p = data ∨ r.2.bufferResponse = some (.ofBytes p))
      ∧ (data ≠ [] → (∃ Le, .response data Le ∈ r.2.calls)
        ∧ r.2.bufferResponse = s.bufferResponse) := by
  have hempty := h.complete.bData_eq
  cases h with
  | status | statusBytes =>
    obtain ⟨data, hlen, hdata⟩ := hempty
    refine ⟨data, hdata, hlen, fun p Le hp => absurd hp (hcalls p Le), fun hne => absurd ?_ hne⟩
    rw [← List.length_eq_zero_iff, hlen]
    first | exact bLen_makeResponse _ | rfl
  | payload payload status =>
    have hcall : ∀ p Le, .response p Le ∈ s.calls ++ [.response payload aLe] → p = payload := by
      intro p Le hp
      rcases List.mem_append.1 hp with hp | hp
      · exact absurd hp (hcalls p Le)
      · simp only [List.mem_singleton, Call.response.injEq] at hp
        exact hp.1
    unfold respond
    split_ifs with hle
    · exact ⟨[], rfl, rfl, fun p Le hp => .inr (by rw [hcall p Le hp]),
        fun hne => absurd rfl hne⟩
    · exact ⟨payload, rfl, rfl, fun p Le hp => .inl (hcall p Le hp),
        fun _ => ⟨⟨aLe, List.mem_append_right _ List.mem_cons_self⟩, rfl⟩⟩

/-- A command's answer: its data are all it was to deliver, and if there are any they are not
pending, too. -/
structure Processed.Gives (card : VCard τ) (apdu : VCardAPDU) (r : Processed τ)
    (response : VCardResponse) (data : Bytes) : Prop where
  response_eq : r.response = some response
  bData_eq : response.bData = data ++ [response.bSw1, response.bSw2]
  length_eq : data.length = response.bLen
  bTotalLen_eq : response.bTotalLen = response.bLen + 2
  delivers : r.Delivers card apdu data
  logged : data ≠ [] → (∃ Le, .response data Le ∈ r.card.calls)
    ∧ r.card.bufferResponse ≠ some (.ofBytes data)

/-- An answer with `respond`, when nothing was pending. -/
theorem Answered.gives {card : VCard τ} {response : VCardResponse} {r : Processed τ}
    (h : Answered s apdu.aLe (response, r.card.toSession)) (hno : NoResponse s.calls)
    (hbuffer : s.bufferResponse = none) (hins : apdu.aIns ≠ Ins.getResponse)
    (hresponse : r.response = some response) :
    ∃ response data, r.Gives card apdu response data := by
  obtain ⟨data, hdata, hlen, hcomputed, hlogged⟩ := h.data hno
  refine ⟨response, data, hresponse, hdata, hlen, h.complete.bTotalLen_eq,
    ⟨hcomputed, fun h => absurd h hins⟩, fun hne => ?_⟩
  obtain ⟨hcall, hb⟩ := hlogged hne
  refine ⟨hcall, fun h => ?_⟩
  cases (hb.trans hbuffer).symm.trans h

theorem CardStep.gives {card card₀ : VCard τ} {r : Processed τ} (h : CardStep emul card apdu r)
    (hcalls : card.calls = []) (hbuffer : card.bufferResponse = none)
    (hins : apdu.aIns ≠ Ins.getResponse) : ∃ response data, r.Gives card₀ apdu response data := by
  have hno : NoResponse card.calls := by
    rw [hcalls]
    exact fun _ _ h => nomatch h
  cases h with
  | answer hr | serial hr | windows hr | select _ _ _ hr | loginStatus _ hr =>
    exact Answered.gives hr hno hbuffer hins rfl
  | handle _ _ _ h hr =>
    obtain ⟨hno', hb⟩ := h.noResponse hno
    exact Answered.gives hr hno' (hb.trans hbuffer) hins rfl
  | deselect => exact Answered.gives (.status _) hno hbuffer hins rfl
  | login =>
    refine Answered.gives (.status _) (fun p Le hp => ?_) hbuffer hins rfl
    rcases List.mem_append.1 hp with hp | hp
    · exact hno p Le hp
    · cases List.mem_singleton.1 hp
  | nextBytes hins' => exact absurd hins' hins

theorem gives_status {card card' : VCard τ} (status : UInt16) (hcalls : card'.calls = [])
    (hbuffer : card'.bufferResponse = card.bufferResponse) :
    (Processed.withStatus card' status).Gives card apdu (vcardMakeResponse status) [] := by
  have hcomplete : (vcardMakeResponse status).Complete apdu.aLe := complete_makeResponse status
  obtain ⟨data, hlen, hdata⟩ := hcomplete.bData_eq
  rw [bLen_makeResponse, List.length_eq_zero_iff] at hlen
  subst hlen
  refine ⟨rfl, hdata, (bLen_makeResponse status).symm, hcomplete.bTotalLen_eq, ⟨fun p Le hp => ?_,
    fun _ => ?_⟩, fun hne => absurd rfl hne⟩
  · change .response p Le ∈ card'.calls at hp
    rw [hcalls] at hp
    cases hp
  · change card.pendingBytes = card'.pendingBytes
    rw [VCard.pendingBytes, VCard.pendingBytes, hbuffer]

/-- GET RESPONSE gives what it takes from the pending response. -/
theorem vmGetResponse_gives {card : VCard τ} {r : Processed τ}
    (hins : apdu.aIns = Ins.getResponse)
    (h : vmGetResponse (card.start apdu) apdu = .ok r) :
    ∃ response data, r.Gives card apdu response data := by
  have hbuffer : (card.start apdu).bufferResponse = card.bufferResponse := if_pos hins
  rcases hb : card.bufferResponse with _ | b
  · unfold vmGetResponse at h
    rw [hbuffer, hb] at h
    rw [← Except.ok.inj h]
    exact ⟨_, _, gives_status _ rfl hbuffer⟩
  · rw [vmGetResponse_some apdu (hbuffer.trans hb)] at h
    rw [← Except.ok.inj h]
    refine ⟨_, _, rfl, rfl, rfl, rfl, ⟨fun p Le hp => .inl ?_, fun _ => ?_⟩, fun hne =>
      ⟨⟨apdu.aLe, List.mem_singleton.2 rfl⟩, fun hpending => ?_⟩⟩
    · cases List.mem_singleton.1 hp
      rfl
    · have hlen := b.length_remaining
      rw [VCard.pendingBytes, hb]
      simp only [VCard.pendingBytes, Processed.answer, dataResponse]
      split_ifs with hle
      · change b.remaining = b.remaining.take apdu.aLe ++ []
        rw [List.append_nil, List.take_of_length_le (by omega)]
      · change b.remaining = b.remaining.take apdu.aLe ++ (b.advance _ _).remaining
        rw [VCardBufferResponse.remaining_advance, Nat.min_eq_right (Nat.le_of_not_le hle),
          List.take_append_drop]
    · simp only [Processed.answer] at hpending
      split_ifs at hpending with hle
      have hcurrent := congrArg VCardBufferResponse.current (Option.some.inj hpending)
      have hzero : min b.len apdu.aLe = 0 := by
        simp only [VCardBufferResponse.advance, VCardBufferResponse.ofBytes] at hcurrent
        omega
      have hLe : apdu.aLe = 0 := by omega
      exact hne (by rw [hLe, List.take_zero])

theorem vcardProcessApdu_gives {card : VCard τ} (hok : CardOk card) {r : Processed τ}
    (hr : vcardProcessApdu emul card apdu = .ok r) :
    r.status = .done ∧ ∃ response data, r.Gives card apdu response data := by
  rcases vcardProcessApdu_step hok with ⟨r', hr', h, -⟩ | ⟨he, -⟩
  · obtain rfl := Except.ok.inj (hr.symm.trans hr')
    refine ⟨h.done.status, ?_⟩
    by_cases hins : apdu.aIns = Ins.getResponse
    · rw [vcardProcessApdu_passedOn hok (.inl hins), vcard7816VmProcessApdu] at hr
      have hbuffer : (card.start apdu).bufferResponse = card.bufferResponse := if_pos hins
      split_ifs at hr
      · rw [← Except.ok.inj hr]
        exact ⟨_, _, gives_status _ rfl hbuffer⟩
      · rw [← Except.ok.inj hr]
        exact ⟨_, _, gives_status _ rfl hbuffer⟩
      · simp only [hins] at hr
        exact vmGetResponse_gives hins hr
    · exact h.gives rfl (if_neg hins) hins
  · rw [he] at hr
    cases hr

end Inside

section Buffer

theorem vreaderXfrBytes_of_gives {card : VCard τ} {command : Bytes} {r : Processed τ}
    {response : VCardResponse} {data : Bytes} (n : ℕ)
    (happdu : vcardApduNew command = .ok (.ok apdu))
    (hr : vcardProcessApdu emul card apdu = .ok r) (hdone : r.status = .done)
    (h : r.Gives card apdu response data) :
    vreaderXfrBytes emul (some card) command n
      = .ok ⟨.ok, min n (data.length + 2),
        (data ++ [response.bSw1, response.bSw2]).take (min n (data.length + 2)),
        some r.card⟩ := by
  have hread : readBytes response.bData 0 (min n (data.length + 2))
      = .ok ((data ++ [response.bSw1, response.bSw2]).take (min n (data.length + 2))) := by
    rw [h.bData_eq, readBytes_of_le, List.drop_zero]
    rw [List.length_append, List.length_cons, List.length_singleton]
    omega
  simp only [vreaderXfrBytes, happdu, ok_bind, hr, hdone, reduceCtorEq, if_false, h.response_eq,
    h.bTotalLen_eq, ← h.length_eq, hread, pure_eq]

/-- A processed command's answer gets to the client whole if and only if it is not long. -/
theorem xfrWhole_iff_not_long {card : VCard τ} {command : Bytes} {r : Processed τ}
    (hok : CardOk card) (happdu : vcardApduNew command = .ok (.ok apdu))
    (hr : vcardProcessApdu emul card apdu = .ok r) : XfrWhole emul card command ↔ ¬ r.Long := by
  obtain ⟨hdone, response, data, hgives⟩ := vcardProcessApdu_gives hok hr
  have hxfr := vreaderXfrBytes_of_gives apduBufSize happdu hr hdone hgives
  have hlong : r.Long ↔ 268 < data.length := by
    rw [hgives.length_eq]
    refine ⟨fun ⟨response', h', hlen⟩ => ?_, fun hlen => ⟨response, hgives.response_eq, hlen⟩⟩
    obtain rfl := Option.some.inj (hgives.response_eq.symm.trans h')
    exact hlen
  have hbuf : apduBufSize = 270 := rfl
  rw [hlong]
  constructor
  · rintro ⟨x, data', sw1, sw2, hx, -, -, hbytes, -, hdelivers⟩ hlen
    obtain rfl := Except.ok.inj (hxfr.symm.trans hx)
    obtain ⟨r', response', hr', hresponse', -, -, hdelivers⟩ := hdelivers apdu happdu
    obtain rfl := Except.ok.inj (hr.symm.trans hr')
    -- the client has 268 of the data, which were neither all of them nor are the others pending
    have hlen' : data'.length = 268 := by
      have := congrArg List.length hbytes
      simp only [List.length_take, List.length_append, List.length_cons, List.length_nil] at this
      omega
    obtain ⟨⟨Le, hcall⟩, hnot⟩ := hgives.logged fun h => by
      rw [h] at hlen
      exact absurd hlen (by decide)
    rcases hdelivers.computed _ _ hcall with rfl | hpending
    · omega
    · exact hnot hpending
  · intro hlen
    have hmin : min apduBufSize (data.length + 2) = data.length + 2 := by omega
    rw [hmin, List.take_of_length_le (by simp)] at hxfr
    refine ⟨_, data, response.bSw1, response.bSw2, hxfr, rfl, by simp, rfl, fun status h => ?_,
      fun apdu' h => ?_⟩
    · cases happdu.symm.trans h
    · obtain rfl := Except.ok.inj (Except.ok.inj (happdu.symm.trans h))
      exact ⟨r, response, hr, hgives.response_eq, rfl, rfl, hgives.delivers⟩

/-- A command that cannot be read is answered with a status, whatever the card. -/
theorem xfrWhole_of_rejected (card : VCard τ) {command : Bytes} {status : UInt16}
    (happdu : vcardApduNew command = .ok (.error status)) : XfrWhole emul card command := by
  have hcomplete : (vcardMakeResponse status).Complete 0 := complete_makeResponse status
  obtain ⟨data, hlen, hdata⟩ := hcomplete.bData_eq
  rw [bLen_makeResponse, List.length_eq_zero_iff] at hlen
  subst hlen
  have hsw : ((vcardMakeResponse status).bSw1, (vcardMakeResponse status).bSw2)
      = statusBytes status := by
    unfold vcardMakeResponse
    split_ifs <;> rfl
  refine ⟨⟨.ok, 2, [(vcardMakeResponse status).bSw1, (vcardMakeResponse status).bSw2], some card⟩,
    [], (vcardMakeResponse status).bSw1, (vcardMakeResponse status).bSw2, ?_, rfl, rfl, rfl,
    fun status' h => ?_, fun apdu h => ?_⟩
  · have htotal := hcomplete.bTotalLen_eq
    rw [bLen_makeResponse] at htotal
    simp only [vreaderXfrBytes, happdu, ok_bind, Processed.withStatus, Processed.answer,
      reduceCtorEq, if_false, htotal, hdata]
    rfl
  · obtain rfl := Except.error.inj (Except.ok.inj (happdu.symm.trans h))
    exact ⟨rfl, hsw⟩
  · cases happdu.symm.trans h

theorem xfrWhole_iff {card : VCard τ} (hok : CardOk card) (command : Bytes) :
    XfrWhole emul card command
      ↔ ∀ apdu, vcardApduNew command = .ok (.ok apdu) →
        SigningFits card apdu ∧ ObjectFits emul card apdu ∧ ¬ LongAnswer emul card apdu := by
  rcases vcardApduNew_cases command with hrejected | ⟨apdu, happdu⟩
  · refine iff_of_true (xfrWhole_of_rejected card hrejected) fun apdu h => ?_
    cases hrejected.symm.trans h
  have hone : (∀ apdu', vcardApduNew command = .ok (.ok apdu') →
      SigningFits card apdu' ∧ ObjectFits emul card apdu' ∧ ¬ LongAnswer emul card apdu')
      ↔ SigningFits card apdu ∧ ObjectFits emul card apdu ∧ ¬ LongAnswer emul card apdu := by
    refine ⟨fun h => h apdu happdu, fun h apdu' h' => ?_⟩
    obtain rfl := Except.ok.inj (Except.ok.inj (happdu.symm.trans h'))
    exact h
  rw [hone]
  rcases vcardProcessApdu_step hok with ⟨r, hr, -, hno⟩ | ⟨he, hover⟩
  · obtain ⟨hsign, hobject⟩ := not_not.1 (mt (commandOverflows_iff hok).2 hno)
    rw [xfrWhole_iff_not_long hok happdu hr, vcardProcessApdu_long_iff hok hr]
    exact ⟨fun h => ⟨hsign, hobject, h⟩, fun h => h.2.2⟩
  · refine iff_of_false ?_ fun h => (commandOverflows_iff hok).1 hover ⟨h.1, h.2.1⟩
    rintro ⟨x, data, sw1, sw2, hx, -⟩
    simp only [vreaderXfrBytes, happdu, ok_bind, he, error_bind, reduceCtorEq] at hx

/-- The client gets the whole answer to a command if and only if the command is rejected or does
not overflow and does not have a long answer. -/
theorem xfrBytes_whole_iff {digest : Bytes → Option Bytes} {card : VCard τ}
    (hreach : Reachable emul digest card) (command : Bytes) :
    XfrWhole emul card command
      ↔ ∀ apdu, vcardApduNew command = .ok (.ok apdu) →
        SigningFits card apdu ∧ ObjectFits emul card apdu ∧ ¬ LongAnswer emul card apdu :=
  xfrWhole_iff hreach.cardOk command

/-- SELECT of the ACA. -/
def selectAca : VCardAPDU :=
  ⟨[0x00, 0xa4, 0x04, 0x00, 0x07, 0xa0, 0x00, 0x00, 0x00, 0x79, 0x03, 0x00], ⟨7, 0, some 5⟩,
    by decide, by decide⟩

/-- GET ACR for the whole table, of up to 512 bytes. -/
def getAcrTable : Bytes := [0x80, 0x4c, 0x10, 0x00, 0x00, 0x02, 0x00]

/-- After one command, another has more than 268 bytes of data in its answer. -/
def answersLong (emul : Emul τ) (first : VCardAPDU) (command : Bytes) (card : VCard τ) : Bool :=
  match vcardProcessApdu emul card first, vcardApduNew command with
  | .ok r, .ok (.ok apdu) =>
    match vcardProcessApdu emul r.card apdu with
    | .ok r => r.response.any fun response => 268 < response.bLen
    | .error _ => false
  | _, _ => false

theorem exists_of_answersLong {first : VCardAPDU} {command : Bytes} {card : VCard τ}
    (h : answersLong emul first command card) :
    ∃ r apdu r', vcardProcessApdu emul card first = .ok r
      ∧ vcardApduNew command = .ok (.ok apdu) ∧ vcardProcessApdu emul r.card apdu = .ok r'
      ∧ r'.Long := by
  unfold answersLong at h
  split at h
  · rename_i r apdu hr happdu
    split at h
    · obtain ⟨response, hresponse, hlen⟩ := (Option.any_eq_true _ _).1 h
      exact ⟨r, apdu, _, hr, happdu, ‹_›, response, hresponse, of_decide_eq_true hlen⟩
    · cases h
  · cases h

/-- Before anything is selected no command overflows, and none has a long answer. -/
theorem FreshCard.fits (hfresh : FreshCard card) (emul : Emul τ) (apdu : VCardAPDU) :
    SigningFits card apdu ∧ ObjectFits emul card apdu ∧ ¬ LongAnswer emul card apdu := by
  have hnone : ∀ {i}, card.currentApplet apdu.channel ≠ some i := fun hi => by
    rw [hfresh.current] at hi
    cases hi
  refine ⟨fun _ _ _ _ _ hi => absurd hi hnone, fun _ _ _ _ _ _ hi => absurd hi hnone, ?_⟩
  rintro (⟨-, -, hb, -⟩ | ⟨hi, -⟩)
  · rw [hfresh.bufferResponse] at hb
    cases hb
  · exact hnone hi

theorem xfrBytes_whole_select : ∃ card,
    vcardEmulMakeCard (Emul.plain none nofun) (fun _ => none) () .initial [] = .ok (.done, card)
      ∧ XfrWhole (Emul.plain none nofun) card selectPersonInstance.aData := by
  obtain ⟨card, hmade, -⟩ := exists_of_madeWith (show madeWith (fun _ => true)
    (vcardEmulMakeCard (Emul.plain none nofun) (fun _ => none) () .initial []) by decide +kernel)
  have hfresh := vcardEmulMakeCard_fresh hmade
  exact ⟨card, hmade, (xfrBytes_whole_iff (.made hmade) _).2 fun apdu _ => hfresh.fits _ apdu⟩

/-- Of the table with 406 bytes the client has 270, and no status. -/
theorem xfrBytes_whole_fails : ∃ card reply card',
    vcardEmulMakeCard (Emul.plain none nofun) (fun _ => none) () .initial [] = .ok (.done, card)
      ∧ cardStep (Emul.plain none nofun) card (.apdu selectAca) = .ok (reply, card')
      ∧ getAcrTable.length ≤ apduBufSize
      ∧ ¬ XfrWhole (Emul.plain none nofun) card' getAcrTable := by
  obtain ⟨card, hmade, hcheck⟩ := exists_of_madeWith (show madeWith
    (answersLong (Emul.plain none nofun) selectAca getAcrTable)
    (vcardEmulMakeCard (Emul.plain none nofun) (fun _ => none) () .initial []) by decide +kernel)
  obtain ⟨r, apdu, r', hr, happdu, hr', hlong⟩ := exists_of_answersLong hcheck
  have hstep := cardStep_apdu hr
  have hok := ((Reachable.made hmade).step hstep).cardOk
  exact ⟨card, _, r.card, hmade, hstep, by decide,
    fun h => (xfrWhole_iff_not_long hok happdu hr').1 h hlong⟩

end Buffer

end Libcacard
