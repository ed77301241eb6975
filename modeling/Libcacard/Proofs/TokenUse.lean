import Libcacard.Proofs.Program
import Libcacard.TokenUse

/-!
# Every call of a token

A card and its `CardUse` go in step: for each command the token gets the calls `CardUse` says, and
what is left is what it says. So in a program each card has its own calls, in the order of its own
commands, whatever the other cards do.
-/

namespace Libcacard

open Machine

variable {τ : Type} {emul : Emul τ} {card : VCard τ} {apdu : VCardAPDU} {a : VCardApplet} {i : ℕ}

section AsSeen

theorem CardUse.ext_of {u v : CardUse τ} (happlets : u.applets = v.applets)
    (hselected : u.selected = v.selected) (htoken : u.token = v.token) : u = v := by
  cases u
  cases v
  simp only at happlets hselected htoken
  rw [happlets, hselected, htoken]

theorem AppletOk.use_clear (hok : AppletOk a) : a.clear.use = a.use.clear := by
  cases hok with
  | pki _ hu => simp [VCardApplet.use, VCardApplet.clear, hu, AppletUse.clear]
  | passthrough _ hu =>
    simp [VCardApplet.use, VCardApplet.clear, cacAppletPassthroughReset, hu, AppletUse.clear]
  | commonRead | aca | gp | msft => rfl

theorem find_use (card : VCard τ) (aid : Bytes) :
    card.use.find aid = vcardFindApplet card.applets aid := by
  unfold CardUse.find vcardFindApplet VCard.use
  rw [List.length_map]
  congr 1
  funext i
  rw [List.getElem?_map]
  cases card.applets[i]? <;> rfl

theorem current_use_none (hi : card.currentApplet apdu.channel = none) :
    card.use.current apdu.channel = none := by
  simp [CardUse.current, VCard.use, hi]

theorem current_use (hi : card.currentApplet apdu.channel = some i)
    (ha : card.applets[i]? = some a) : card.use.current apdu.channel = some (i, a.use) := by
  simp [CardUse.current, VCard.use, hi, ha]

/-- What the applets of a card do after one of them changed. -/
theorem map_use_set {as : List VCardApplet} {b : VCardApplet} {use : AppletUse}
    (ha : as[i]? = some a) (haid : b.aid = a.aid) (huse : b.use = use) :
    (as.set i b).map (fun a => (a.aid, a.use))
      = (as.map fun a => (a.aid, a.use)).modify i fun a => (a.1, use) := by
  apply List.ext_getElem?
  intro j
  rw [List.getElem?_map, List.getElem?_modify, List.getElem?_map]
  by_cases hij : i = j
  · subst hij
    rw [List.getElem?_set_self (List.getElem?_eq_some_iff.1 ha).1, ha]
    simp [haid, huse]
  · rw [List.getElem?_set_ne hij]
    simp [hij]

end AsSeen

theorem tokenCalls_append (cs ds : List Call) :
    tokenCalls (cs ++ ds) = tokenCalls cs ++ tokenCalls ds := List.filter_append ..

/-- An answer asks nothing of the token. -/
theorem Answered.token {s : Session τ} {aLe : ℕ} {r : VCardResponse × Session τ}
    (h : Answered s aLe r) : tokenCalls r.2.calls = tokenCalls s.calls ∧ r.2.token = s.token := by
  refine ⟨?_, by rw [h.session_eq]⟩
  cases h with
  | status | statusBytes => rfl
  | payload payload status =>
    have hlog : tokenCalls (s.log (.response payload aLe)).calls = tokenCalls s.calls := by
      rw [show (s.log (.response payload aLe)).calls = s.calls ++ [.response payload aLe] from rfl,
        tokenCalls_append]
      exact List.append_nil _
    unfold respond
    split_ifs <;> exact hlog

section Iso

theorem iso_eq_self (u : CardUse τ) (h : ¬ apdu.PassedOn) : u.iso emul apdu = ([], u) := by
  have hverify : apdu.aIns ≠ Ins.verify := fun hins => h (.inr (.inl hins))
  have hselects : ¬ apdu.Selects apdu.body := by
    rintro ⟨-, hins, hP1, -⟩
    exact h (.inr (.inr ⟨hins, by rw [hP1]; decide⟩))
  unfold CardUse.iso
  rw [if_neg fun h : apdu.GivesPin => hverify h.2.1, if_neg fun h : apdu.AsksLogin => hverify h.2.1,
    if_neg hselects]

theorem iso_not_isIso (u : CardUse τ) (h : ¬ apdu.IsIso) : u.iso emul apdu = ([], u) := by
  unfold CardUse.iso
  rw [if_neg fun hpin : apdu.GivesPin => h hpin.1, if_neg fun hasks : apdu.AsksLogin => h hasks.1,
    if_neg fun hselects : apdu.Selects apdu.body => h hselects.1]

theorem vmSelectFile_use (hok : CardOk card) (hcalls : tokenCalls card.calls = [])
    (hiso : apdu.IsIso) (hins : apdu.aIns = Ins.selectFile) {r : Processed τ}
    (hr : vmSelectFile card apdu = .ok r) :
    card.use.iso emul apdu = (tokenCalls r.card.calls, r.card.use) := by
  have hverify : apdu.aIns ≠ Ins.verify := by
    rw [hins]
    decide
  unfold CardUse.iso
  rw [if_neg fun h : apdu.GivesPin => hverify h.2.1, if_neg fun h : apdu.AsksLogin => hverify h.2.1]
  by_cases hP1 : apdu.aP1 = 0x04
  · have hselects : apdu.Selects apdu.body := ⟨hiso, hins, hP1, rfl⟩
    rw [if_pos hselects, CardUse.select]
    simp only [find_use]
    rcases hfind : vcardFindApplet card.applets apdu.body with _ | i
    · unfold vmSelectFile at hr
      rw [if_neg (not_not.2 hP1)] at hr
      simp only [hfind, vcardSelectApplet_none, ok_bind, if_true] at hr
      obtain rfl := Except.ok.inj hr
      exact Prod.ext hcalls.symm rfl
    · obtain ⟨a, ha, -⟩ := vcardFindApplet_eq_some hfind
      obtain ⟨response, s, hr', hans⟩ := vmSelectFile_found hok hselects hfind ha
      obtain rfl := Except.ok.inj (hr.symm.trans hr')
      have hanswered : Answered card.toSession apdu.aLe (response, s) := hans ▸ .payload _ _
      obtain ⟨hcalls', htoken⟩ := hanswered.token
      refine Prod.ext (hcalls.symm.trans hcalls'.symm) (CardUse.ext_of ?_ rfl htoken.symm)
      have huse := (hok.applets a (List.mem_of_getElem? ha)).1.use_clear
      rw [VCard.use, VCard.use]
      dsimp only [Processed.answer]
      rw [map_use_set ha (clear_aid a) huse]
      apply List.ext_getElem?
      intro j
      simp only [List.getElem?_modify, List.getElem?_map]
      by_cases hij : i = j
      · subst hij
        rw [ha]
        simp
      · simp [hij]
  · rw [if_neg fun h : apdu.Selects apdu.body => hP1 h.2.2.1]
    unfold vmSelectFile at hr
    rw [if_pos hP1] at hr
    obtain rfl := Except.ok.inj hr
    exact Prod.ext hcalls.symm rfl

theorem vmVerify_use (hcalls : tokenCalls card.calls = []) (hiso : apdu.IsIso)
    (hins : apdu.aIns = Ins.verify) :
    card.use.iso emul apdu = (tokenCalls (vmVerify emul card apdu).card.calls,
      (vmVerify emul card apdu).card.use) := by
  have hselect : ¬ apdu.Selects apdu.body := by
    rintro ⟨-, h, -⟩
    rw [hins] at h
    exact absurd h (by decide)
  unfold CardUse.iso vmVerify
  by_cases hP : apdu.aP1 ≠ 0x00 ∨ apdu.aP2 ≠ 0x00
  · rw [if_pos hP, if_neg fun h : apdu.GivesPin => hP.elim (absurd h.2.2.1) (absurd h.2.2.2.1),
      if_neg fun h : apdu.AsksLogin => hP.elim (absurd h.2.2.1) (absurd h.2.2.2.1), if_neg hselect]
    exact Prod.ext hcalls.symm rfl
  obtain ⟨hP1, hP2⟩ := not_or.1 hP
  rw [if_neg hP]
  by_cases hLc : apdu.aLc = 0
  · have hasks : apdu.AsksLogin := ⟨hiso, hins, not_not.1 hP1, not_not.1 hP2, hLc⟩
    rw [if_neg fun h : apdu.GivesPin => h.2.2.2.2 hLc, if_pos hasks, if_pos hLc]
    dsimp only
    split_ifs <;> exact Prod.ext hcalls.symm rfl
  · have hpin : apdu.GivesPin := ⟨hiso, hins, not_not.1 hP1, not_not.1 hP2, hLc⟩
    rw [if_pos hpin, if_neg hLc]
    refine Prod.ext ?_ rfl
    change _ = tokenCalls (card.calls ++ [_])
    rw [tokenCalls_append, hcalls]
    rfl

theorem vmGetResponse_use (hcalls : tokenCalls card.calls = []) {r : Processed τ}
    (hins : apdu.aIns = Ins.getResponse) (hr : vmGetResponse card apdu = .ok r) :
    card.use.iso emul apdu = (tokenCalls r.card.calls, r.card.use) := by
  have hiso : card.use.iso emul apdu = ([], card.use) := by
    have hverify : apdu.aIns ≠ Ins.verify := by
      rw [hins]
      decide
    have hselect : apdu.aIns ≠ Ins.selectFile := by
      rw [hins]
      decide
    unfold CardUse.iso
    rw [if_neg fun h : apdu.GivesPin => hverify h.2.1,
      if_neg fun h : apdu.AsksLogin => hverify h.2.1,
      if_neg fun h : apdu.Selects apdu.body => hselect h.2.1]
  rw [hiso]
  rcases hb : card.bufferResponse with _ | b
  · unfold vmGetResponse at hr
    rw [hb] at hr
    obtain rfl := Except.ok.inj hr
    exact Prod.ext hcalls.symm rfl
  · rw [vmGetResponse_some apdu hb] at hr
    obtain rfl := Except.ok.inj hr
    refine Prod.ext ?_ rfl
    change _ = tokenCalls (card.calls ++ [_])
    rw [tokenCalls_append, hcalls]
    rfl

/-- What no applet answered. -/
theorem vcard7816VmProcessApdu_use (hok : CardOk card) (hcalls : tokenCalls card.calls = [])
    {r : Processed τ} (hr : vcard7816VmProcessApdu emul card apdu = .ok r) :
    card.use.iso emul apdu = (tokenCalls r.card.calls, r.card.use) := by
  by_cases hiso : apdu.IsIso
  · unfold vcard7816VmProcessApdu at hr
    rw [if_neg (not_not.2 hiso.1), if_neg (not_not.2 hiso.2)] at hr
    split at hr
    · exact vmSelectFile_use hok hcalls hiso ‹_› hr
    · obtain rfl := Except.ok.inj hr
      exact vmVerify_use hcalls hiso ‹_›
    · exact vmGetResponse_use hcalls ‹_› hr
    · rename_i hselect hverify hget
      obtain rfl := Except.ok.inj hr
      rw [iso_eq_self]
      · exact Prod.ext hcalls.symm rfl
      · rintro (h | h | ⟨h, -⟩)
        · exact hget h
        · exact hverify h
        · exact hselect h
  · rw [iso_not_isIso _ hiso]
    unfold vcard7816VmProcessApdu at hr
    split_ifs at hr with hgen hsm
    · obtain rfl := Except.ok.inj hr
      exact Prod.ext hcalls.symm rfl
    · obtain rfl := Except.ok.inj hr
      exact Prod.ext hcalls.symm rfl
    · exact absurd ⟨not_not.1 hgen, not_not.1 hsm⟩ hiso

end Iso

section OneCommand

theorem tokenCalls_start (card : VCard τ) (apdu : VCardAPDU) :
    tokenCalls (card.start apdu).calls = [] := rfl

/-- A handler that asked nothing of the token and kept its applet as it was. -/
theorem quiet_use (hok : CardOk card) (hi : card.currentApplet apdu.channel = some i)
    (ha : card.applets[i]? = some a) {h : Handled τ} {st : Statics}
    (hrun : a.processApdu.run emul card.statics a.appletPrivate (card.start apdu).toSession apdu
      = .ok (h, st)) (hpriv : h.appletPrivate = a.appletPrivate)
    (hcalls : tokenCalls h.session.calls = []) (htoken : h.session.token = card.token)
    {r : Processed τ} (hr : vcardProcessApdu emul card apdu = .ok r) :
    card.use.iso emul apdu = (tokenCalls r.card.calls, r.card.use) := by
  have hstart : (card.start apdu).use = card.use := rfl
  have haok := (hok.applets a (List.mem_of_getElem? ha)).1
  by_cases hpassed : apdu.PassedOn
  · rw [vcardProcessApdu_passedOn hok hpassed] at hr
    exact hstart ▸ vcard7816VmProcessApdu_use hok.start (tokenCalls_start ..) hr
  · rcases vcardProcessApdu_applet emul hok hi ha with
      ⟨e, hrun', -⟩ | ⟨-, heq⟩ | ⟨h', st', hrun', -, heq⟩
    · cases hrun.symm.trans hrun'
    · rw [heq] at hr
      exact hstart ▸ vcard7816VmProcessApdu_use hok.start (tokenCalls_start ..) hr
    · obtain ⟨rfl, rfl⟩ := Prod.mk.inj (Except.ok.inj (hrun.symm.trans hrun'))
      obtain rfl := Except.ok.inj (hr.symm.trans heq)
      rw [iso_eq_self _ hpassed]
      refine Prod.ext hcalls.symm (CardUse.ext_of ?_ rfl htoken.symm)
      have hself : ({ a with appletPrivate := h.appletPrivate } : VCardApplet) = a := by
        rw [hpriv]
      change card.applets.map _ = (card.applets.set i { a with appletPrivate := _ }).map _
      rw [hself, set_of_getElem? ha]

theorem Quiet.kept {p : Option VCardAppletPrivate} {s : Session τ} {aLe : ℕ} {h : Handled τ}
    (hquiet : Quiet p s aLe h) : h.appletPrivate = p
      ∧ tokenCalls h.session.calls = tokenCalls s.calls ∧ h.session.token = s.token := by
  cases hquiet with
  | pass => exact ⟨rfl, rfl, rfl⟩
  | answer hr => exact ⟨rfl, hr.token⟩

/-- An applet that leaves the token alone. -/
theorem Outcome.kept {st : Statics} {process : VCardProcessAPDU} {p : Option VCardAppletPrivate}
    {s : Session τ} {r : Handled τ × Statics} (hout : Outcome emul st process p s apdu r)
    (hno : ∀ p₀ p' s', p = some p₀ → ¬ Handling emul apdu p₀ s process p' s') :
    r.1.appletPrivate = p ∧ tokenCalls r.1.session.calls = tokenCalls s.calls
      ∧ r.1.session.token = s.token := by
  cases hout with
  | quiet h => exact h.kept
  | handle hp h _ => exact absurd h (hno _ _ _ hp)
  | serial hr => exact ⟨rfl, hr.token⟩
  | windows hr => exact ⟨rfl, hr.token⟩

/-- What an applet answered that changed what it keeps. -/
theorem answer_use (hi : card.currentApplet apdu.channel = some i)
    (ha : card.applets[i]? = some a) {p' : VCardAppletPrivate} {use : AppletUse} {s : Session τ}
    {answer : VCardResponse × Session τ}
    (hrun : a.processApdu.run emul card.statics a.appletPrivate (card.start apdu).toSession apdu
      = .ok (.answer p' answer, card.statics)) (hans : Answered s apdu.aLe answer)
    (huse : ({ a with appletPrivate := some p' } : VCardApplet).use = use)
    {r : Processed τ} (hr : vcardProcessApdu emul card apdu = .ok r) :
    (tokenCalls r.card.calls, r.card.use)
      = (tokenCalls s.calls, { card.use.put i use with token := s.token }) := by
  obtain rfl := Except.ok.inj (hr.symm.trans (vcardProcessApdu_of_run hi ha hrun))
  obtain ⟨hcalls, htoken⟩ := hans.token
  refine Prod.ext hcalls (CardUse.ext_of ?_ rfl htoken)
  exact map_use_set ha rfl huse

theorem pki_use {aid : Bytes} {p : VCardAppletPrivate} {key : VCardKey} {input : Bytes}
    (hu : p.u = .pkiData input key) :
    (⟨.cacPki, some .pki, aid, some p⟩ : VCardApplet).use = .signs key input := by
  simp [VCardApplet.use, hu]

theorem passthrough_use {aid : Bytes} {p : VCardAppletPrivate} {label : String}
    (hu : p.u = .ptData label) : (⟨.cacPassthrough, some .passthrough, aid, some p⟩ :
      VCardApplet).use = .reads label (p.tagBuffer.isSome && p.valBuffer.isSome) := by
  simp [VCardApplet.use, hu]

theorem not_overflows (hok : CardOk card) {r : Processed τ}
    (hr : vcardProcessApdu emul card apdu = .ok r) : ¬ CommandOverflows emul card apdu := by
  rcases @vcardProcessApdu_step τ emul card apdu hok with ⟨-, -, -, hno⟩ | ⟨he, -⟩
  · exact hno
  · rw [he] at hr
    cases hr

/-- SIGN/DECRYPT to an applet with a key. -/
theorem sign_use (hok : CardOk card) {aid : Bytes} {p : VCardAppletPrivate} {key : VCardKey}
    {input : Bytes}
    (hu : p.u = .pkiData input key) (hi : card.currentApplet apdu.channel = some i)
    (ha : card.applets[i]? = some ⟨.cacPki, some .pki, aid, some p⟩) (hsigns : apdu.Signs)
    {r : Processed τ} (hr : vcardProcessApdu emul card apdu = .ok r) :
    card.use.sign emul apdu i key input = (tokenCalls r.card.calls, r.card.use) := by
  have hrun : ∀ {p'} {answer : VCardResponse × Session τ},
      cacAppletPkiProcessApdu card.statics.cccBufferProperties emul p (card.start apdu).toSession
        apdu = .ok (.answer p' answer) →
      VCardProcessAPDU.cacPki.run emul card.statics (some p) (card.start apdu).toSession apdu
        = .ok (.answer p' answer, card.statics) := by
    intro p' answer h
    simp only [VCardProcessAPDU.run, assertPrivate, ok_bind, h, pure_eq]
  have hlt : input.length + apdu.aLc < 2 ^ 31 := by
    by_contra hlen
    exact not_overflows hok hr ⟨i, _, p, hi, ha, rfl, .sign hu hsigns (Nat.le_of_not_lt hlen)⟩
  unfold CardUse.sign
  dsimp only
  by_cases hP1 : apdu.aP1 = 0x80
  · rw [if_pos hP1, answer_use hi ha (hrun (pkiProcessApdu_collect hu hsigns hP1 hlt)) (.status _)
      (pki_use rfl) hr]
    rfl
  by_cases hP1' : apdu.aP1 = 0x00
  · obtain ⟨answer, hanswer, hans⟩ := @pkiProcessApdu_operate τ
      card.statics.cccBufferProperties emul p (card.start apdu).toSession apdu _ _
      hu hsigns hP1' hlt
    rw [if_neg hP1, if_pos hP1', answer_use hi ha (hrun hanswer) hans (pki_use rfl) hr]
    rfl
  · rw [if_neg hP1, if_neg hP1', answer_use hi ha
      (hrun (pkiProcessApdu_drop hu hsigns hP1 hP1' hlt)) (.status _) (pki_use rfl) hr]
    rfl

/-- READ BUFFER from an applet whose object was not yet read. -/
theorem fetch_use (hok : CardOk card) {aid : Bytes} {p : VCardAppletPrivate} {label : String}
    (hu : p.u = .ptData label) (hi : card.currentApplet apdu.channel = some i)
    (ha : card.applets[i]? = some ⟨.cacPassthrough, some .passthrough, aid, some p⟩)
    (hins : apdu.aIns = Ins.cacReadBuffer) (hnull : p.tagBuffer = none ∨ p.valBuffer = none)
    {r : Processed τ} (hr : vcardProcessApdu emul card apdu = .ok r) :
    card.use.fetch emul i label = (tokenCalls r.card.calls, r.card.use) := by
  rcases @passthroughFiles_readObject τ emul card.token label with
    ⟨⟨tagBuffer, valBuffer⟩, hfiles⟩ | ⟨data, ms, hdata, hparse, hover, -⟩
  · obtain ⟨answer, hanswer, hans⟩ := @passthroughProcessApdu_fetch τ emul p
      (card.start apdu).toSession apdu label card.statics.cccBufferProperties tagBuffer valBuffer hu
      hins hnull hfiles
    have huse : (⟨.cacPassthrough, some .passthrough, aid,
        some { p with tagBuffer := tagBuffer, valBuffer := valBuffer }⟩ : VCardApplet).use
          = .reads label (holds (emul.readObject card.token label).1) := by
      simp only [VCardApplet.use, hu, holds, hfiles]
      cases tagBuffer <;> cases valBuffer <;> rfl
    have hrun : VCardProcessAPDU.cacPassthrough.run emul card.statics (some p)
        (card.start apdu).toSession apdu = .ok (.answer
          { p with tagBuffer := tagBuffer, valBuffer := valBuffer } answer, card.statics) := by
      simp only [VCardProcessAPDU.run, assertPrivate, ok_bind, hanswer, pure_eq]
    rw [answer_use hi ha hrun hans huse hr]
    rfl
  · exact absurd ⟨i, _, p, hi, ha, rfl, .fetch hu hins hnull hdata hparse hover⟩
      (not_overflows hok hr)

/-- Each command has the token called as `CardUse` says, and leaves what it says. -/
theorem command_use (hok : CardOk card) {r : Processed τ}
    (hr : vcardProcessApdu emul card apdu = .ok r) :
    card.use.command emul apdu = (tokenCalls r.card.calls, r.card.use) := by
  rcases hi : card.currentApplet apdu.channel with _ | i
  · unfold CardUse.command
    rw [current_use_none hi]
    rw [vcardProcessApdu_passed hok (vcardProcessAppletApdu_none hi)] at hr
    exact vcard7816VmProcessApdu_use hok.start (tokenCalls_start ..) hr
  obtain ⟨a, ha⟩ : ∃ a, card.applets[i]? = some a :=
    ⟨_, List.getElem?_eq_getElem (hok.current _ _ hi)⟩
  have haok := (hok.applets a (List.mem_of_getElem? ha)).1
  have hquiet : (∀ p p' s', a.appletPrivate = some p →
      ¬ Handling emul apdu p (card.start apdu).toSession a.processApdu p' s') →
      card.use.iso emul apdu = (tokenCalls r.card.calls, r.card.use) := by
    intro hno
    have hruns : Runs emul card.statics a (card.start apdu).toSession apdu := runs_of_ok haok
    rcases hruns with ⟨⟨h, st⟩, hrun, hout, -⟩ | ⟨-, p, hp, hover⟩
    · obtain ⟨hpriv, hcalls, htoken⟩ := hout.kept hno
      exact quiet_use hok hi ha hrun hpriv hcalls htoken hr
    · exact absurd ⟨i, a, p, hi, ha, hp, hover⟩ (not_overflows hok hr)
  unfold CardUse.command
  rw [current_use hi ha]
  cases haok with
  | @pki aid p input key h hu =>
    rw [pki_use hu]
    dsimp only
    split_ifs with hsigns
    · exact sign_use hok hu hi ha hsigns hr
    · refine hquiet fun q p' s' _ hhandling => ?_
      cases hhandling with
      | collect _ h | operate _ h | drop _ h => exact hsigns h
  | @passthrough aid p label h hu =>
    rw [passthrough_use hu]
    rcases hheld : p.tagBuffer.isSome && p.valBuffer.isSome with _ | _
    · have hnull : p.tagBuffer = none ∨ p.valBuffer = none := by
        simpa only [Bool.and_eq_false_iff, Option.isSome_eq_false_iff, Option.isNone_iff_eq_none]
          using hheld
      dsimp only
      split_ifs with hins
      · exact fetch_use hok hu hi ha hins hnull hr
      · refine hquiet fun q p' s' _ hhandling => ?_
        cases hhandling with
        | fetch _ h => exact hins h
    · refine hquiet fun q p' s' hq hhandling => ?_
      obtain rfl := Option.some.inj hq
      cases hhandling with
      | fetch _ _ hnull =>
        rcases hnull with h | h <;> simp [h] at hheld
  | commonRead | aca | gp | msft =>
    refine hquiet fun q p' s' _ hhandling => ?_
    cases hhandling

end OneCommand

section NewCards

/-- Applets that do the same are added to cards on which the applets do the same. -/
theorem use_append {card card' : VCard τ} (huse : card.use = card'.use) {as as' : List VCardApplet}
    (has : as.map (fun a => (a.aid, a.use)) = as'.map fun a => (a.aid, a.use)) :
    ({ card with applets := card.applets ++ as } : VCard τ).use
      = ({ card' with applets := card'.applets ++ as' } : VCard τ).use := by
  have happlets : card.applets.map (fun a => (a.aid, a.use))
      = card'.applets.map fun a => (a.aid, a.use) := congrArg CardUse.applets huse
  have hselected : card.currentApplet = card'.currentApplet := congrArg CardUse.selected huse
  have htoken : card.token = card'.token := congrArg CardUse.token huse
  refine CardUse.ext_of ?_ hselected htoken
  simp only [VCard.use, List.map_append, happlets, has]

/-- What can be added to one card can be added to another. -/
theorem addNewApplets_use {rv : VCardStatus} {made : VCard τ} :
    ∀ {news : List (Except Fault (Option VCardApplet))} {card card' : VCard τ},
    card.type = .vm → card'.type = .vm → card.use = card'.use →
    addNewApplets card news = .ok (rv, made) →
    ∃ made', addNewApplets card' news = .ok (rv, made') ∧ made.use = made'.use
      ∧ made.type = .vm ∧ made'.type = .vm
  | [], card, card', hvm, hvm', huse, h => by
    obtain ⟨rfl, rfl⟩ := Prod.mk.inj (Except.ok.inj h)
    exact ⟨card', rfl, huse, hvm, hvm'⟩
  | .error e :: news, card, card', _, _, _, h => by
    cases h
  | .ok none :: news, card, card', hvm, hvm', huse, h => by
    obtain ⟨rfl, rfl⟩ := Prod.mk.inj (Except.ok.inj h)
    exact ⟨card', rfl, huse, hvm, hvm'⟩
  | .ok (some a) :: news, card, card', hvm, hvm', huse, h => by
    simp only [addNewApplets, ok_bind, vcardAddApplet_vm hvm, vcardAddApplet_vm hvm'] at h ⊢
    exact addNewApplets_use (by exact hvm) (by exact hvm') (use_append huse rfl) h

/-- The statics a card is made with make no difference to its token. -/
theorem cacCardInit_use {card card' : VCard τ} {certs : List (Bytes × VCardKey)} {rv : VCardStatus}
    {made : VCard τ} (huse : card.use = card'.use)
    (h : cacCardInit emul card certs = .ok (rv, made)) :
    ∃ made', cacCardInit emul card' certs = .ok (rv, made') ∧ made.use = made'.use
      ∧ made.type = .vm ∧ made'.type = .vm := by
  unfold cacCardInit at h ⊢
  dsimp only at h ⊢
  by_cases hmany : maxPkiApplets < certs.length
  · rw [if_pos hmany] at h ⊢
    obtain ⟨rfl, rfl⟩ := Prod.mk.inj (Except.ok.inj h)
    exact ⟨_, rfl, huse, rfl, rfl⟩
  rw [if_neg hmany] at h ⊢
  obtain ⟨⟨rv₁, card₁⟩, hpki, h⟩ := bind_eq_ok.1 h
  obtain ⟨card₁', hpki', huse₁, hvm₁, hvm₁'⟩ := addNewApplets_use
    (show ({ card with type := .vm } : VCard τ).type = .vm from rfl)
    (show ({ card' with type := .vm } : VCard τ).type = .vm from rfl) huse hpki
  rw [hpki', ok_bind]
  dsimp only at h ⊢
  by_cases hrv : rv₁ = .done
  · rw [if_neg (not_not.2 hrv)] at h ⊢
    rw [cacNewCccApplet_eq _ (Nat.le_of_not_lt hmany), ok_bind] at h ⊢
    simp only [addNewApplets, ok_bind] at h ⊢
    rw [vcardAddApplet_vm (by exact hvm₁)] at h
    rw [vcardAddApplet_vm (by exact hvm₁')]
    exact addNewApplets_use (by exact hvm₁) (by exact hvm₁') (by exact use_append huse₁ rfl) h
  · rw [if_pos hrv] at h ⊢
    obtain ⟨rfl, rfl⟩ := Prod.mk.inj (Except.ok.inj h)
    exact ⟨_, rfl, huse₁, hvm₁, hvm₁'⟩

/-- A new card is to its token what it would be in a program of its own. -/
theorem vcardEmulMakeCard_use {digest : Bytes → Option Bytes} {token : τ} {st : Statics}
    {certs : List (Bytes × VCardKey)} {rv : VCardStatus}
    (h : vcardEmulMakeCard emul digest token st certs = .ok (rv, card)) (st' : Statics) :
    ∃ card', vcardEmulMakeCard emul digest token st' certs = .ok (rv, card')
      ∧ card.use = card'.use := by
  rw [vcardEmulMakeCard_eq] at h ⊢
  have hbare : (vcardBare digest token st certs).use = (vcardBare digest token st' certs).use := by
    unfold vcardBare
    rcases certs with _ | ⟨⟨cert, key⟩, certs⟩
    · rfl
    · dsimp only
      cases digest cert <;> rfl
  simp only [vcardInit] at h ⊢
  obtain ⟨⟨rv₁, card₁⟩, hcac, h⟩ := bind_eq_ok.1 h
  obtain ⟨card₁', hcac', huse, hvm, hvm'⟩ := cacCardInit_use hbare hcac
  rw [hcac', ok_bind]
  dsimp only at h ⊢
  by_cases hrv : rv₁ = .done
  · rw [if_pos hrv] at h ⊢
    obtain ⟨rfl, rfl⟩ := Prod.mk.inj (Except.ok.inj h)
    refine ⟨_, rfl, ?_⟩
    simp only [msftCardInit, gpCardInit, vcardAddApplet, hvm, hvm', reduceCtorEq, if_false]
    exact use_append (use_append huse rfl) rfl
  · rw [if_neg hrv] at h ⊢
    obtain ⟨rfl, rfl⟩ := Prod.mk.inj (Except.ok.inj h)
    exact ⟨_, rfl, huse⟩

theorem makeCard_use {digest : Bytes → Option Bytes} {y : Program τ} {new : NewCard τ}
    {rv : VCardStatus} (h : y.makeCard emul digest new = .ok (rv, card)) :
    card.use = CardUse.new emul digest new := by
  obtain ⟨card', hmade, huse⟩ := vcardEmulMakeCard_use h .initial
  rw [CardUse.new, hmade, huse]

theorem cardStep_use {op : CardOp} {reply : Option CardReply} {card' : VCard τ}
    (hok : CardOk card) (h : cardStep emul card op = .ok (reply, card')) :
    card.use.step emul (.card op) = ((match op with
      | .apdu _ => tokenCalls card'.calls
      | .reset _ => []), card'.use) := by
  cases op with
  | apdu apdu =>
    simp only [cardStep, bind_eq_ok, pure_eq, Except.ok.injEq, Prod.mk.injEq] at h
    obtain ⟨r, hr, rfl, rfl⟩ := h
    exact command_use hok hr
  | reset power =>
    rw [cardStep_reset hok] at h
    obtain ⟨-, rfl⟩ := Prod.mk.inj (Except.ok.inj h)
    rfl

end NewCards

section Programs

variable {digest : Bytes → Option Bytes} {y y' : Program τ} {calls : List (ℕ × Call)}

/-- The cards of a program as their tokens see them. -/
def Program.uses (y : Program τ) : List (CardUse τ) := y.cards.map VCard.use

/-- What a step is to the tokens: a card is made, or something happens to one card. -/
inductive AsksStep (emul : Emul τ) (digest : Bytes → Option Bytes) (us : List (CardUse τ)) :
    SharedOp τ → List (ℕ × Call) → List (CardUse τ) → Prop
  | make (new : NewCard τ) : AsksStep emul digest us (.program (.make new)) []
    (us ++ [CardUse.new emul digest new])
  | card {k : ℕ} {u : CardUse τ} {op : CardOp} (hk : us[k]? = some u) :
    AsksStep emul digest us (.program (.card k op)) ((u.step emul (.card op)).1.map (k, ·))
      (us.set k (u.step emul (.card op)).2)
  | token {k : ℕ} {u : CardUse τ} {t : τ} (hk : us[k]? = some u) :
    AsksStep emul digest us (.token k t) [] (us.set k (u.step emul (.token t)).2)

theorem uses_of {k : ℕ} (hk : y.cards[k]? = some card) : y.uses[k]? = some card.use := by
  rw [Program.uses, List.getElem?_map, hk]
  rfl

/-- What each step of a program is to the tokens. -/
theorem asks_step {op : SharedOp τ} (hok : ∀ card ∈ y.cards, CardOk card)
    (h : y.asks emul digest op = .ok (calls, y')) :
    AsksStep emul digest y.uses op calls y'.uses ∧ ∀ card ∈ y'.cards, CardOk card := by
  cases op with
  | token k t =>
    unfold Program.asks at h
    rcases hk : y.cards[k]? with _ | card
    · simp only [hk] at h
      cases h
    simp only [hk] at h
    obtain ⟨rfl, rfl⟩ := Prod.mk.inj (Except.ok.inj h)
    refine ⟨?_, fun c hc => ?_⟩
    · have htoken : ({ card with token := t } : VCard τ).use = (card.use.step emul (.token t)).2 :=
        rfl
      rw [Program.uses, Program.uses, List.map_set, htoken]
      exact .token (uses_of hk)
    · rcases List.mem_or_eq_of_mem_set hc with hc | rfl
      · exact hok c hc
      · have hcard := hok card (List.mem_of_getElem? hk)
        exact ⟨hcard.type, hcard.applets, hcard.current⟩
  | program op =>
    obtain ⟨⟨reply, y₁⟩, hstep, h⟩ := bind_eq_ok.1 h
    cases op with
    | make new =>
      simp only [pure_eq, Except.ok.injEq, Prod.mk.injEq] at h
      obtain ⟨rfl, rfl⟩ := h
      simp only [Program.step, bind_eq_ok, pure_eq, Except.ok.injEq, Prod.mk.injEq] at hstep
      obtain ⟨⟨rv, card⟩, hmake, -, rfl⟩ := hstep
      refine ⟨?_, fun c hc => ?_⟩
      · rw [Program.uses, Program.uses, List.map_append, List.map_singleton, makeCard_use hmake]
        exact .make new
      · rcases List.mem_append.1 hc with hc | hc
        · exact hok c hc
        · rw [List.mem_singleton.1 hc]
          exact (vcardEmulMakeCard_fresh hmake).cardOk
    | card k op =>
      unfold Program.step Program.cardAt at hstep
      rcases hk : y.cards[k]? with _ | card
      · simp only [hk, Option.map_none] at hstep
        cases hstep
      simp only [hk, Option.map_some, bind_eq_ok, pure_eq, Except.ok.injEq, Prod.mk.injEq] at hstep
      obtain ⟨⟨reply, card'⟩, hstep, -, rfl⟩ := hstep
      have hcard := hok card (List.mem_of_getElem? hk)
      have hstatics : CardOk { card with statics := y.statics } :=
        ⟨hcard.type, hcard.applets, hcard.current⟩
      have hlt := (List.getElem?_eq_some_iff.1 hk).1
      have huse := cardStep_use hstatics hstep
      have hsame : ({ card with statics := y.statics } : VCard τ).use = card.use := rfl
      rw [hsame] at huse
      have hcalls : calls = (card.use.step emul (.card op)).1.map (k, ·)
          ∧ y' = ⟨y.cards.set k card', card'.statics⟩ := by
        rw [huse]
        cases op with
        | apdu apdu =>
          simp only [pure_eq, Except.ok.injEq, Prod.mk.injEq, Program.callsAt,
            List.getElem?_set_self hlt] at h
          exact ⟨h.1.symm, h.2.symm⟩
        | reset power =>
          simp only [pure_eq, Except.ok.injEq, Prod.mk.injEq] at h
          exact ⟨h.1.symm, h.2.symm⟩
      obtain ⟨rfl, rfl⟩ := hcalls
      refine ⟨?_, fun c hc => ?_⟩
      · have huses : (Program.mk (y.cards.set k card') card'.statics).uses
            = y.uses.set k (card.use.step emul (.card op)).2 := by
          rw [Program.uses, Program.uses, List.map_set, huse]
        rw [huses]
        exact .card (uses_of hk)
      · rcases List.mem_or_eq_of_mem_set hc with hc | rfl
        · exact hok c hc
        · exact cardStep_cardOk hstatics hstep

theorem callsOf_cons (k : ℕ) (calls : List (ℕ × Call)) (os : List (List (ℕ × Call))) :
    callsOf k (calls :: os)
      = (calls.filterMap fun c => if c.1 = k then some c.2 else none) ++ callsOf k os := by
  rw [callsOf, List.flatten_cons, List.filterMap_append]
  rfl

theorem callsOf_map (k j : ℕ) (calls : List Call) (os : List (List (ℕ × Call))) :
    callsOf k (calls.map (j, ·) :: os) = (if j = k then calls else []) ++ callsOf k os := by
  rw [callsOf_cons]
  congr 1
  rw [List.filterMap_map]
  split_ifs with hjk <;> simp [hjk]

/-- Every card, whenever it was or is made, has its own calls for its own steps. -/
theorem asks_trace : ∀ {ops : List (SharedOp τ)} {os : List (List (ℕ × Call))} {y y' : Program τ},
    (∀ card ∈ y.cards, CardOk card) →
    run (Program.asks emul digest) y ops = .ok (os, y') → ∀ {k : ℕ} {u : CardUse τ},
    (y.uses ++ (SharedOp.made ops).map (CardUse.new emul digest))[k]? = some u →
    callsOf k os = (u.trace emul (SharedOp.ofCard k ops)).1
      ∧ y'.uses[k]? = some (u.trace emul (SharedOp.ofCard k ops)).2
  | [], os, y, y', _, h, k, u, hu => by
    obtain ⟨rfl, rfl⟩ := Prod.mk.inj (Except.ok.inj h)
    rw [SharedOp.made, List.filterMap_nil, List.map_nil, List.append_nil] at hu
    exact ⟨rfl, hu⟩
  | op :: ops, os, y, y', hok, h, k, u, hu => by
    obtain ⟨calls, y₁, os', hstep, hrun, rfl⟩ := run_cons_eq_ok.1 h
    obtain ⟨hasks, hok₁⟩ := asks_step hok hstep
    have ih := fun u => @asks_trace ops os' y₁ y' hok₁ hrun k u
    generalize hus : y₁.uses = us₁ at hasks ih
    cases hasks with
    | make new =>
      rw [List.append_assoc] at ih
      rw [callsOf_cons]
      exact ih u hu
    | @card j u₁ op hj =>
      have hlt := (List.getElem?_eq_some_iff.1 hj).1
      rw [← List.set_append_left _ _ hlt] at ih
      rw [callsOf_map]
      by_cases hjk : j = k
      · subst hjk
        rw [List.getElem?_append_left hlt, hj] at hu
        obtain rfl := Option.some.inj hu
        obtain ⟨hcalls, huse⟩ := ih _ (List.getElem?_set_self (by simp; omega))
        simp only [SharedOp.ofCard, List.filterMap_cons, if_true] at hcalls huse ⊢
        rw [hcalls]
        exact ⟨rfl, huse⟩
      · obtain ⟨hcalls, huse⟩ := ih u ((List.getElem?_set_ne hjk).trans hu)
        simp only [SharedOp.ofCard, List.filterMap_cons, hjk, if_false] at hcalls huse ⊢
        exact ⟨hcalls, huse⟩
    | @token j u₁ t hj =>
      have hlt := (List.getElem?_eq_some_iff.1 hj).1
      rw [← List.set_append_left _ _ hlt] at ih
      rw [callsOf_cons, List.filterMap_nil, List.nil_append]
      by_cases hjk : j = k
      · subst hjk
        rw [List.getElem?_append_left hlt, hj] at hu
        obtain rfl := Option.some.inj hu
        obtain ⟨hcalls, huse⟩ := ih _ (List.getElem?_set_self (by simp; omega))
        simp only [SharedOp.ofCard, List.filterMap_cons, if_true] at hcalls huse ⊢
        exact ⟨hcalls, huse⟩
      · obtain ⟨hcalls, huse⟩ := ih u ((List.getElem?_set_ne hjk).trans hu)
        simp only [SharedOp.ofCard, List.filterMap_cons, hjk, if_false] at hcalls huse ⊢
        exact ⟨hcalls, huse⟩

end Programs

end Libcacard
