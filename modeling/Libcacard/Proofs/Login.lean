import Libcacard.Login
import Libcacard.Proofs.EveryCommand

/-!
# When a login is reported

Only a PIN that is accepted logs the token in, and a reset, or a PIN that is rejected, logs it out.
But before `vcard_emul_init` is done `vcard_emul_is_logged_in` returns a status, which is not zero,
and VERIFY takes it for a login.
-/

namespace Libcacard

open Machine

variable {σ τ : Type} {nss : Pk11 σ} {t t' : NssToken σ}

section TokenLogin

variable (nss) in
/-- The token is logged in and initialised as it was. -/
structure SameLogin (t t' : NssToken σ) : Prop where
  nssEmulInit_eq : t'.nssEmulInit = t.nssEmulInit
  isLoggedIn_eq : nss.isLoggedIn t'.slot = nss.isLoggedIn t.slot

theorem SameLogin.refl (t : NssToken σ) : SameLogin nss t t := ⟨rfl, rfl⟩

theorem SameLogin.trans {t'' : NssToken σ} (h : SameLogin nss t t') (h' : SameLogin nss t' t'') :
    SameLogin nss t t'' :=
  ⟨h'.nssEmulInit_eq.trans h.nssEmulInit_eq, h'.isLoggedIn_eq.trans h.isLoggedIn_eq⟩

theorem rsaRaw_sameLogin (hnss : nss.NeedsLogin) (t : NssToken σ) (key : VCardKey)
    (buffer : Bytes) : SameLogin nss t (rsaRaw nss t key buffer).2 := by
  have hslot := hnss.privDecryptRaw t.slot key buffer
  unfold rsaRaw
  by_cases hraw : t.failedX509 key ≠ .true ∧ nss.doesMechanism t.slot
  · rw [if_pos hraw]
    rcases hr : nss.privDecryptRaw t.slot key buffer with ⟨e | out, slot⟩ <;> rw [hr] at hslot <;>
      exact ⟨rfl, hslot⟩
  · rw [if_neg hraw]
    exact .refl t

theorem rsaPkcs1_sameLogin (hnss : nss.NeedsLogin) (t : NssToken σ) (key : VCardKey)
    (buffer : Bytes) : SameLogin nss t (rsaPkcs1 nss t key buffer).2.2 := by
  unfold rsaPkcs1
  rcases pkcs1Hash buffer with _ | hash
  · have hslot := hnss.privDecryptPkcs1 t.slot key buffer
    rcases hr : nss.privDecryptPkcs1 t.slot key buffer with ⟨e | payload, slot⟩ <;>
      rw [hr] at hslot
    · exact ⟨rfl, hslot⟩
    · dsimp only
      split_ifs <;> exact ⟨rfl, hslot⟩
  · have hslot := hnss.sign t.slot key hash
    rcases hr : nss.sign t.slot key hash with ⟨e | out, slot⟩ <;> simp only [hr] at hslot ⊢ <;>
      exact ⟨rfl, hslot⟩

theorem vcardEmulRsaOp_sameLogin (hnss : nss.NeedsLogin) (t : NssToken σ) (key : VCardKey)
    (buffer : Bytes) : SameLogin nss t (vcardEmulRsaOp nss t key buffer).2.2 := by
  unfold vcardEmulRsaOp
  by_cases hinit : t.nssEmulInit
  swap
  · rw [if_pos hinit]
    exact .refl t
  rw [if_neg (not_not.2 hinit)]
  have hslot := hnss.findPrivateKeyFromCert t.slot key
  rcases hr : nss.findPrivateKeyFromCert t.slot key with ⟨found, slot⟩
  rw [hr] at hslot
  have hfound : SameLogin nss t { t with slot := slot } := ⟨rfl, hslot⟩
  dsimp only
  by_cases hf : found
  swap
  · rw [if_pos hf]
    exact hfound
  rw [if_neg (not_not.2 hf)]
  by_cases hlen : buffer.length = nss.signatureLen key
  swap
  · rw [if_pos hlen]
    exact hfound
  rw [if_neg (not_not.2 hlen)]
  have hraw := rsaRaw_sameLogin hnss { t with slot := slot } key buffer
  rcases hr' : rsaRaw nss { t with slot := slot } key buffer with ⟨_ | ⟨status, out⟩, t'⟩ <;>
    rw [hr'] at hraw
  · exact hfound.trans (hraw.trans (rsaPkcs1_sameLogin hnss t' key buffer))
  · exact hfound.trans hraw

@[simp] theorem vcardEmulLogout_nssEmulInit (t : NssToken σ) :
    (vcardEmulLogout nss t).nssEmulInit = t.nssEmulInit := by
  unfold vcardEmulLogout
  split_ifs <;> rfl

theorem vcardEmulLogout_isLoggedIn (hnss : nss.NeedsLogin) (hinit : t.nssEmulInit) :
    nss.isLoggedIn (vcardEmulLogout nss t).slot = false := by
  unfold vcardEmulLogout
  rw [if_neg (not_not.2 hinit)]
  split_ifs with hin
  · exact hnss.logout t.slot
  · exact Bool.eq_false_iff.2 hin

theorem vcardEmulLogout_of_not_init (hinit : ¬ t.nssEmulInit) : vcardEmulLogout nss t = t :=
  if_pos hinit

theorem vcardEmulLogin_of_not_init (hinit : ¬ t.nssEmulInit) (pin : Bytes) :
    (vcardEmulLogin nss t pin).2 = t := by
  rw [vcardEmulLogin, if_pos hinit]

/-- Whatever it was, the token is logged in just if the PIN is accepted. -/
theorem vcardEmulLogin_isLoggedIn (hnss : nss.NeedsLogin) (hinit : t.nssEmulInit) (pin : Bytes) :
    nss.isLoggedIn (vcardEmulLogin nss t pin).2.slot
      = (nss.authenticate (vcardEmulLogout nss t).slot (pinString pin)).1 := by
  rw [vcardEmulLogin, if_neg (not_not.2 hinit)]
  change nss.isLoggedIn (nss.authenticate (vcardEmulLogout nss t).slot (pinString pin)).2 = _
  rw [hnss.authenticate, vcardEmulLogout_isLoggedIn hnss hinit, Bool.false_or]

theorem vcardEmulLogin_nssEmulInit (t : NssToken σ) (pin : Bytes) :
    (vcardEmulLogin nss t pin).2.nssEmulInit = t.nssEmulInit := by
  by_cases hinit : t.nssEmulInit
  · rw [vcardEmulLogin, if_neg (not_not.2 hinit)]
    exact vcardEmulLogout_nssEmulInit t
  · rw [vcardEmulLogin_of_not_init hinit]

theorem vcardEmulIsLoggedIn_ne_zero (hnss : nss.NeedsLogin) :
    vcardEmulIsLoggedIn nss t ≠ 0 ↔ (t.nssEmulInit → nss.isLoggedIn t.slot) := by
  unfold vcardEmulIsLoggedIn
  by_cases hinit : t.nssEmulInit
  · rw [if_neg (not_not.2 hinit), if_neg (not_not.2 (hnss.needLogin t.slot))]
    split_ifs with hin
    · exact iff_of_true one_ne_zero fun _ => hin
    · exact iff_of_false (not_not.2 rfl) fun h => hin (h hinit)
  · rw [if_pos hinit]
    exact iff_of_true (by decide) fun h => absurd h hinit

end TokenLogin

section Verify

variable {emul : Emul τ} {card : VCard τ} {apdu : VCardAPDU}

theorem vcardProcessApdu_verify (hok : CardOk card) (hins : apdu.aIns = Ins.verify) :
    vcardProcessApdu emul card apdu
      = if apdu.IsIso then .ok (vmVerify emul (card.start apdu) apdu)
        else vcard7816VmProcessApdu emul (card.start apdu) apdu := by
  rw [vcardProcessApdu_passedOn hok (.inr (.inl hins))]
  split_ifs with hiso
  · unfold vcard7816VmProcessApdu
    rw [if_neg (not_not.2 hiso.1), if_neg (not_not.2 hiso.2)]
    simp only [hins]
    rfl
  · rfl

theorem vmVerify_asksLogin (h : apdu.AsksLogin) :
    ((CardReply.mk (vmVerify emul card apdu).status (vmVerify emul card apdu).response).Succeeds
        ↔ (emul.isLoggedIn card.token).1 ≠ 0)
      ∧ (vmVerify emul card apdu).card.token = (emul.isLoggedIn card.token).2 := by
  obtain ⟨-, -, hP1, hP2, hLc⟩ := h
  have hchange : ∀ sw2 status, ¬ (CardReply.mk status
      (some (vcardResponseNewStatusBytes 0x63 sw2))).Succeeds := by
    rintro sw2 status ⟨response, hr, hsuffix⟩
    obtain rfl := Option.some.inj hr
    have hbytes := hsuffix.eq_of_length rfl
    simp [vcardResponseNewStatusBytes, vcardResponseSetStatusBytes, splice] at hbytes
  unfold vmVerify
  rw [if_neg (by simp [hP1, hP2]), if_pos hLc]
  dsimp only
  split_ifs with hin
  · exact ⟨iff_of_true ⟨_, rfl, by decide⟩ hin, rfl⟩
  · refine ⟨iff_of_false ?_ hin, rfl⟩
    rintro ⟨response, hr, hsuffix⟩
    obtain rfl := Option.some.inj hr
    revert hsuffix
    decide
  · exact ⟨iff_of_false (hchange _ _) hin, rfl⟩
  · exact ⟨iff_of_false (hchange _ _) hin, rfl⟩

theorem vmVerify_givesPin (h : apdu.GivesPin) :
    (vmVerify emul card apdu).card.token = (emul.login card.token apdu.body).2 := by
  obtain ⟨-, -, hP1, hP2, hLc⟩ := h
  unfold vmVerify
  rw [if_neg (by simp [hP1, hP2]), if_neg hLc]
  rfl

theorem vmVerify_wrongParameters (h : apdu.aP1 ≠ 0x00 ∨ apdu.aP2 ≠ 0x00) :
    (vmVerify emul card apdu).card.token = card.token := by
  rw [vmVerify, if_pos h]
  rfl

end Verify

section Steps

variable {card card' : VCard (NssToken σ)} {r : Processed (NssToken σ)} {op : NssOp}
  {reply : Option CardReply}

/-- VERIFY does nothing to the token but log in with a PIN. -/
theorem vcardProcessApdu_verify_token (hok : CardOk card) (hins : apdu.aIns = Ins.verify)
    (hr : vcardProcessApdu nss.emul card apdu = .ok r) :
    r.card.token = if apdu.GivesPin then (vcardEmulLogin nss card.token apdu.body).2
      else card.token := by
  rw [vcardProcessApdu_verify hok hins] at hr
  by_cases hiso : apdu.IsIso
  · rw [if_pos hiso] at hr
    obtain rfl := Except.ok.inj hr
    by_cases hP : apdu.aP1 ≠ 0x00 ∨ apdu.aP2 ≠ 0x00
    · rw [if_neg fun h : apdu.GivesPin => hP.elim (absurd h.2.2.1) (absurd h.2.2.2.1)]
      exact vmVerify_wrongParameters hP
    · obtain ⟨hP1, hP2⟩ := not_or.1 hP
      by_cases hLc : apdu.aLc = 0
      · rw [if_neg fun h : apdu.GivesPin => h.2.2.2.2 hLc]
        exact (vmVerify_asksLogin ⟨hiso, hins, not_not.1 hP1, not_not.1 hP2, hLc⟩).2
      · have hpin : apdu.GivesPin := ⟨hiso, hins, not_not.1 hP1, not_not.1 hP2, hLc⟩
        rw [if_pos hpin]
        exact vmVerify_givesPin hpin
  · rw [if_neg hiso] at hr
    rw [if_neg fun h : apdu.GivesPin => hiso h.1]
    unfold vcard7816VmProcessApdu at hr
    split_ifs at hr with hgen hsm
    · obtain rfl := Except.ok.inj hr
      rfl
    · obtain rfl := Except.ok.inj hr
      rfl
    · exact absurd ⟨not_not.1 hgen, not_not.1 hsm⟩ hiso

theorem Handling.sameLogin (hnss : nss.NeedsLogin) {p p' : VCardAppletPrivate}
    {s s' : Session (NssToken σ)} {process : VCardProcessAPDU}
    (h : Handling nss.emul apdu p s process p' s') : SameLogin nss s.token s'.token := by
  cases h with
  | collect | drop => exact .refl _
  | operate => exact vcardEmulRsaOp_sameLogin hnss _ _ _
  | fetch => exact ⟨rfl, hnss.findGenericObjects _⟩

theorem Answered.token_eq {s : Session τ} {aLe : ℕ} {a : VCardResponse × Session τ}
    (h : Answered s aLe a) : a.2.token = s.token := by
  rw [h.session_eq]

theorem CardStep.sameLogin (hnss : nss.NeedsLogin) (h : CardStep nss.emul card apdu r)
    (hins : apdu.aIns ≠ Ins.verify) : SameLogin nss card.token r.card.token := by
  have heq : ∀ {t : NssToken σ}, t = card.token → SameLogin nss card.token t := by
    rintro _ rfl
    exact .refl _
  cases h with
  | answer hr | serial hr | windows hr | select _ _ _ hr | nextBytes _ hr =>
    exact heq hr.token_eq
  | handle _ _ _ h hr =>
    obtain ⟨hinit, hin⟩ := h.sameLogin hnss
    have htoken := hr.token_eq
    exact ⟨(congrArg _ htoken).trans hinit, (congrArg (fun t => nss.isLoggedIn t.slot) htoken).trans
      hin⟩
  | deselect => exact .refl _
  | loginStatus h | login h => exact absurd h hins

/-- A token that is logged in after a step was before and stays it, or accepts a PIN now. -/
theorem nssStep_login (hnss : nss.NeedsLogin) (hok : CardOk card)
    (hinit : nss.isLoggedIn card.token.slot → card.token.nssEmulInit)
    (h : nssStep nss card op = .ok (reply, card')) (hin : nss.isLoggedIn card'.token.slot) :
    card'.token.nssEmulInit
      ∧ (Accepts nss card op ∨ nss.isLoggedIn card.token.slot ∧ KeepsLogin nss card op) := by
  cases op with
  | initDone =>
    obtain ⟨-, rfl⟩ := Prod.mk.inj (Except.ok.inj h)
    exact ⟨rfl, .inr ⟨hin, nofun, nofun⟩⟩
  | card op =>
    rcases cardStep_eq_ok hok h with ⟨apdu, r, rfl, hr, hstep, -, rfl⟩ | ⟨power, rfl, -, rfl⟩
    · by_cases hins : apdu.aIns = Ins.verify
      · have htoken := vcardProcessApdu_verify_token hok hins hr
        by_cases hpin : apdu.GivesPin
        · rw [if_pos hpin] at htoken
          rw [htoken] at hin ⊢
          by_cases hcard : card.token.nssEmulInit
          · rw [vcardEmulLogin_isLoggedIn hnss hcard] at hin
            exact ⟨(vcardEmulLogin_nssEmulInit _ _).trans hcard, .inl ⟨apdu, rfl, hpin, hcard, hin⟩⟩
          · rw [vcardEmulLogin_of_not_init hcard] at hin
            exact absurd (hinit hin) hcard
        · rw [if_neg hpin] at htoken
          rw [htoken] at hin ⊢
          refine ⟨hinit hin, .inr ⟨hin, nofun, fun apdu' h' hpin' => ?_⟩⟩
          obtain rfl := CardOp.apdu.inj (NssOp.card.inj h')
          exact absurd hpin' hpin
      · obtain ⟨hinit', hin'⟩ := hstep.sameLogin hnss hins
        have hbefore : nss.isLoggedIn card.token.slot := hin'.symm.trans hin
        refine ⟨hinit'.trans (hinit hbefore), .inr ⟨hbefore, nofun, fun apdu' h' hpin' => ?_⟩⟩
        obtain rfl := CardOp.apdu.inj (NssOp.card.inj h')
        exact absurd hpin'.2.1 hins
    · change nss.isLoggedIn (vcardEmulLogout nss card.token).slot = true at hin
      by_cases hcard : card.token.nssEmulInit
      · rw [vcardEmulLogout_isLoggedIn hnss hcard] at hin
        cases hin
      · rw [vcardEmulLogout_of_not_init hcard] at hin
        exact absurd (hinit hin) hcard

theorem nssStep_cardOk (hok : CardOk card) (h : nssStep nss card op = .ok (reply, card')) :
    CardOk card' := by
  cases op with
  | initDone =>
    obtain ⟨-, rfl⟩ := Prod.mk.inj (Except.ok.inj h)
    exact ⟨hok.type, hok.applets, hok.current⟩
  | card op => exact cardStep_cardOk hok h

/-- Once it is set, `nss_emul_init` stays set. -/
theorem nssStep_nssEmulInit (hnss : nss.NeedsLogin) (hok : CardOk card)
    (h : nssStep nss card op = .ok (reply, card')) (hinit : card.token.nssEmulInit) :
    card'.token.nssEmulInit := by
  cases op with
  | initDone =>
    obtain ⟨-, rfl⟩ := Prod.mk.inj (Except.ok.inj h)
    rfl
  | card op =>
    rcases cardStep_eq_ok hok h with ⟨apdu, r, rfl, hr, hstep, -, rfl⟩ | ⟨power, rfl, -, rfl⟩
    · by_cases hins : apdu.aIns = Ins.verify
      · rw [vcardProcessApdu_verify_token hok hins hr]
        split_ifs
        · exact (vcardEmulLogin_nssEmulInit _ _).trans hinit
        · exact hinit
      · exact (hstep.sameLogin hnss hins).nssEmulInit_eq.trans hinit
    · exact (vcardEmulLogout_nssEmulInit card.token).trans hinit

section Runs

/-- What every run keeps: a token that is logged in was initialised, and accepted a PIN since when
nothing logged it out. -/
theorem run_login (hnss : nss.NeedsLogin) (hok : CardOk card)
    (hout : nss.isLoggedIn card.token.slot = false) {ops : List NssOp}
    {replies : List (Option CardReply)} (hrun : run (nssStep nss) card ops = .ok (replies, card')) :
    CardOk card' ∧ (nss.isLoggedIn card'.token.slot → card'.token.nssEmulInit
      ∧ Since (nssStep nss) (Accepts nss) (KeepsLogin nss) card ops) := by
  refine run_induction (I := fun before (card' : VCard (NssToken σ)) =>
    CardOk card' ∧ (nss.isLoggedIn card'.token.slot → card'.token.nssEmulInit
      ∧ Since (nssStep nss) (Accepts nss) (KeepsLogin nss) card before))
    ⟨hok, fun h => by rw [hout] at h; cases h⟩ ?_ hrun
  rintro before replies card₁ op reply card₂ hbefore ⟨hok₁, hlogin⟩ hstep
  refine ⟨nssStep_cardOk hok₁ hstep, fun hin => ?_⟩
  obtain ⟨hinit, haccepts | ⟨hin₁, hkeeps⟩⟩ :=
    nssStep_login hnss hok₁ (fun h => (hlogin h).1) hstep hin
  · exact ⟨hinit, since_now hbefore haccepts hstep⟩
  · exact ⟨hinit, (hlogin hin₁).2.append hbefore hkeeps⟩

theorem run_nssEmulInit (hnss : nss.NeedsLogin) (hok : CardOk card) {ops : List NssOp}
    {replies : List (Option CardReply)} (hrun : run (nssStep nss) card ops = .ok (replies, card')) :
    CardOk card' ∧ (card.token.nssEmulInit → card'.token.nssEmulInit) := by
  refine run_induction (I := fun _ (card' : VCard (NssToken σ)) =>
    CardOk card' ∧ (card.token.nssEmulInit → card'.token.nssEmulInit)) ⟨hok, id⟩ ?_ hrun
  rintro - - card₁ op reply card₂ - ⟨hok₁, hinit⟩ hstep
  exact ⟨nssStep_cardOk hok₁ hstep, fun h => nssStep_nssEmulInit hnss hok₁ hstep (hinit h)⟩

/-- PK11_Authenticate is not called before `nss_emul_init` is set. -/
theorem nssEmulInit_of_since (hnss : nss.NeedsLogin) (hok : CardOk card) {ops : List NssOp}
    {Q : VCard (NssToken σ) → NssOp → Prop} {replies : List (Option CardReply)}
    (h : Since (nssStep nss) (Accepts nss) Q card ops)
    (hrun : run (nssStep nss) card ops = .ok (replies, card')) : card'.token.nssEmulInit := by
  obtain ⟨before, op, after, replies₁, card₁, reply, card₂, rfl, hbefore,
    ⟨apdu, rfl, hpin, hinit, -⟩, hstep, -⟩ := h
  have hok₁ := (run_nssEmulInit hnss hok hbefore).1
  obtain ⟨replies₂, card₃, replies₃, hbefore', hrest, -⟩ := run_append_eq_ok.1 hrun
  obtain ⟨-, rfl⟩ := Prod.mk.inj (Except.ok.inj (hbefore.symm.trans hbefore'))
  obtain ⟨reply', card₄, replies₄, hstep', hafter, -⟩ := run_cons_eq_ok.1 hrest
  obtain ⟨-, rfl⟩ := Prod.mk.inj (Except.ok.inj (hstep.symm.trans hstep'))
  exact (run_nssEmulInit hnss (nssStep_cardOk hok₁ hstep) hafter).2
    (nssStep_nssEmulInit hnss hok₁ hstep hinit)

/-- VERIFY without a PIN succeeds where the token is logged in, and before it is initialised. -/
theorem nssStep_asksLogin (hnss : nss.NeedsLogin) (hok : CardOk card) (h : apdu.AsksLogin) :
    ∃ reply card', nssStep nss card (.card (.apdu apdu)) = .ok (some reply, card')
      ∧ (reply.Succeeds ↔ (card.token.nssEmulInit → nss.isLoggedIn card.token.slot)) := by
  have hr := @vcardProcessApdu_verify _ nss.emul _ _ hok h.2.1
  rw [if_pos h.1] at hr
  refine ⟨_, _, cardStep_apdu hr, ?_⟩
  rw [(vmVerify_asksLogin h).1]
  exact vcardEmulIsLoggedIn_ne_zero hnss

/-- A run reports only logins there were just if nobody asks in it before the end of
`vcard_emul_init`. -/
theorem reportsLogins_iff (hnss : nss.NeedsLogin) {digest : Bytes → Option Bytes}
    {token : NssToken σ} {st : Statics} {certs : List (Bytes × VCardKey)}
    (hmade : vcardEmulMakeCard nss.emul digest token st certs = .ok (.done, card))
    (hout : nss.isLoggedIn card.token.slot = false) (ops : List NssOp) :
    ReportsLogins nss card ops ↔ Along (nssStep nss) AsksAfterInit card ops := by
  have hok := (vcardEmulMakeCard_fresh hmade).cardOk
  rw [along_iff]
  constructor
  · rintro h before op after replies card₁ heq hrun apdu rfl hasks
    by_contra hinit
    obtain ⟨hok₁, -⟩ := run_login hnss hok hout hrun
    obtain ⟨reply, card₂, hstep, hsucceeds⟩ := nssStep_asksLogin hnss hok₁ hasks
    have hsince := h before apdu after replies card₁ reply card₂ heq hrun hstep hasks
      (hsucceeds.2 fun h => absurd h hinit)
    exact hinit (nssEmulInit_of_since hnss hok hsince hrun)
  · rintro h before apdu after replies card₁ reply card₂ heq hrun hstep hasks hreply
    have hinit := h before _ after replies card₁ heq hrun apdu rfl hasks
    obtain ⟨hok₁, hlogin⟩ := run_login hnss hok hout hrun
    obtain ⟨reply', card₂', hstep', hsucceeds⟩ := nssStep_asksLogin hnss hok₁ hasks
    obtain ⟨hreply', -⟩ := Prod.mk.inj (Except.ok.inj (hstep.symm.trans hstep'))
    obtain rfl := Option.some.inj hreply'
    exact (hlogin (hsucceeds.1 hreply hinit)).2

end Runs

end Steps

/-- A token with a PIN, no objects, and keys whose operation gives its input back. -/
def Pk11.soft (pin : Bytes) : Pk11 Bool where
  needLogin _ := true
  isLoggedIn s := s
  authenticate s p := let s := s || p.takeWhile (· ≠ 0x00) = pin; (s, s)
  logout _ := false
  publicKeyStrengthInBits _ := some 2048
  findPrivateKeyFromCert s _ := (s, s)
  signatureLen _ := 256
  doesMechanism _ := true
  privDecryptRaw s _ b := (if b.length = 256 then .ok b else .error .inputLen, s)
  sign s _ _ := (.error .invalidKey, s)
  privDecryptPkcs1 s _ _ := (.error .badData, s)
  findGenericObjects s := ([], s)
  privDecryptRaw_length _ _ _ _ h := by
    split_ifs at h with hlen
    exact Except.ok.inj h ▸ hlen
  sign_length _ _ _ _ h := by cases h
  value_length _ _ _ h := by cases h

theorem Pk11.needsLogin_soft (pin : Bytes) : (Pk11.soft pin).NeedsLogin where
  needLogin _ := rfl
  authenticate s _ := by cases s <;> rfl
  logout _ := rfl
  findPrivateKeyFromCert _ _ := rfl
  privDecryptRaw _ _ _ := rfl
  sign _ _ _ := rfl
  privDecryptPkcs1 _ _ _ := rfl
  findGenericObjects _ := rfl

/-- VERIFY without a PIN. -/
def askLogin : VCardAPDU := ⟨[0x00, 0x20, 0x00, 0x00], ⟨0, 0, none⟩, by decide, by decide⟩

/-- VERIFY of the PIN 1234. -/
def givePin : VCardAPDU :=
  ⟨[0x00, 0x20, 0x00, 0x00, 0x04, 0x31, 0x32, 0x33, 0x34], ⟨4, 0, some 5⟩, by decide, by decide⟩

/-- A card without certificates, when the token is not initialised yet. -/
theorem exists_uninitialised : ∃ card, vcardEmulMakeCard (Pk11.soft [0x31, 0x32, 0x33, 0x34]).emul
      (fun _ => none) ⟨false, false, fun _ => .unknown⟩ .initial [] = .ok (.done, card)
    ∧ card.token.slot = false ∧ card.token.nssEmulInit = false := by
  obtain ⟨card, hmade, hcheck⟩ := exists_of_madeWith (show madeWith
    (fun card => !card.token.slot && !card.token.nssEmulInit)
    (vcardEmulMakeCard (Pk11.soft [0x31, 0x32, 0x33, 0x34]).emul (fun _ => none)
      ⟨false, false, fun _ => .unknown⟩ .initial []) by decide +kernel)
  simp only [Bool.and_eq_true, Bool.not_eq_true'] at hcheck
  exact ⟨card, hmade, hcheck⟩

theorem reportsLogins_iff_givePin : ∃ card,
    vcardEmulMakeCard (Pk11.soft [0x31, 0x32, 0x33, 0x34]).emul (fun _ => none)
        ⟨false, false, fun _ => .unknown⟩ .initial [] = .ok (.done, card)
      ∧ (ReportsLogins (Pk11.soft [0x31, 0x32, 0x33, 0x34]) card
          [.initDone, .card (.apdu givePin), .card (.apdu askLogin)]
        ↔ Along (nssStep (Pk11.soft [0x31, 0x32, 0x33, 0x34])) AsksAfterInit card
          [.initDone, .card (.apdu givePin), .card (.apdu askLogin)]) := by
  obtain ⟨card, hmade, hout, -⟩ := exists_uninitialised
  exact ⟨card, hmade, reportsLogins_iff (Pk11.needsLogin_soft _) hmade hout _⟩

/-- Before the token is initialised, VERIFY without a PIN reports a login there was not. -/
theorem reportsLogins_fails : ∃ card,
    vcardEmulMakeCard (Pk11.soft [0x31, 0x32, 0x33, 0x34]).emul (fun _ => none)
        ⟨false, false, fun _ => .unknown⟩ .initial [] = .ok (.done, card)
      ∧ (Pk11.soft [0x31, 0x32, 0x33, 0x34]).NeedsLogin
      ∧ (Pk11.soft [0x31, 0x32, 0x33, 0x34]).isLoggedIn card.token.slot = false
      ∧ ¬ ReportsLogins (Pk11.soft [0x31, 0x32, 0x33, 0x34]) card
        [.card (.apdu askLogin)] := by
  obtain ⟨card, hmade, hout, hinit⟩ := exists_uninitialised
  have hnss := Pk11.needsLogin_soft [0x31, 0x32, 0x33, 0x34]
  have hasks : askLogin.AsksLogin := by decide
  refine ⟨card, hmade, hnss, hout, fun h => ?_⟩
  obtain ⟨reply, card', hstep, hsucceeds⟩ :=
    nssStep_asksLogin hnss (vcardEmulMakeCard_fresh hmade).cardOk hasks
  obtain ⟨before, op, after, -, -, -, -, heq, -⟩ := h [] askLogin [] [] card reply card' rfl rfl
    hstep hasks (hsucceeds.2 fun h => by rw [hinit] at h; cases h)
  simp at heq

end Libcacard
