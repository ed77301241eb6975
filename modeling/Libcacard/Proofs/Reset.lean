import Libcacard.Proofs.EveryCommand
import Libcacard.Proofs.Made

/-!
# What a reset forgets

A reset leaves the input of the PKI applets and the files of the passthrough applets, but no
command gets to see them: an applet is selected, and thereby reset, before a command goes to it. So
a card that was reset and one that was just made go in step.
-/

namespace Libcacard

open Machine

variable {τ : Type} {emul : Emul τ} {card card' : VCard τ} {apdu : VCardAPDU}

section Unchanged

theorem Handling.clear {a : VCardApplet} {p p' : VCardAppletPrivate} {s s' : Session τ}
    (h : Handling emul apdu p s a.processApdu p' s') (hok : AppletOk a)
    (hp : a.appletPrivate = some p) : { a with appletPrivate := some p' }.clear = a.clear := by
  cases hok with
  | pki _ hu =>
    obtain rfl := Option.some.inj hp
    cases h with
    | collect hu' | operate hu' | drop hu' =>
      obtain ⟨rfl, rfl⟩ := AppletUnion.pkiData.inj (hu.symm.trans hu')
      simp only [VCardApplet.clear, hu]
  | passthrough _ hu =>
    obtain rfl := Option.some.inj hp
    cases h with
    | fetch => rfl
  | commonRead | aca => cases h
  | gp | msft => cases hp

theorem AppletOk.clear_clear {a : VCardApplet} (h : AppletOk a) : a.clear.clear = a.clear := by
  cases h with
  | pki _ hu => simp only [VCardApplet.clear, hu]
  | commonRead | aca | passthrough | gp | msft => rfl

theorem Answered.serial_eq {s : Session τ} {aLe : ℕ} {a : VCardResponse × Session τ}
    (h : Answered s aLe a) : a.2.serial = s.serial ∧ a.2.serialLen = s.serialLen := by
  rw [h.session_eq]
  exact ⟨rfl, rfl⟩

theorem Handling.serial_eq {p p' : VCardAppletPrivate} {s s' : Session τ}
    {process : VCardProcessAPDU} (h : Handling emul apdu p s process p' s') :
    s'.serial = s.serial ∧ s'.serialLen = s.serialLen := by
  cases h <;> exact ⟨rfl, rfl⟩

theorem CardStep.serial_eq {r : Processed τ} (h : CardStep emul card apdu r) :
    r.card.serial = card.serial ∧ r.card.serialLen = card.serialLen := by
  cases h with
  | answer hr | serial hr | windows hr | select _ _ _ hr | loginStatus _ hr | nextBytes _ hr =>
    exact hr.serial_eq
  | handle _ _ _ h hr =>
    exact ⟨hr.serial_eq.1.trans h.serial_eq.1, hr.serial_eq.2.trans h.serial_eq.2⟩
  | deselect | login => exact ⟨rfl, rfl⟩

/-- A card that is as it was, but for what a session leaves. -/
structure Lasts (card card' : VCard τ) : Prop where
  serial_eq : card'.serial = card.serial
  serialLen_eq : card'.serialLen = card.serialLen
  clear_eq : card'.applets.map VCardApplet.clear = card.applets.map VCardApplet.clear
  cccPkiSlots_eq : card'.statics.cccPkiSlots = card.statics.cccPkiSlots
  cccBufferProperties_eq :
    card'.statics.cccBufferProperties = card.statics.cccBufferProperties
  cplpDataOf_eq : cplpDataOf card.serial card.serialLen card'.statics.cplpData
    = cplpDataOf card.serial card.serialLen card.statics.cplpData

theorem Lasts.trans {card'' : VCard τ} (h : Lasts card card') (h' : Lasts card' card'') :
    Lasts card card'' := by
  have hcplp := h'.cplpDataOf_eq
  rw [h.serial_eq, h.serialLen_eq] at hcplp
  exact ⟨h'.serial_eq.trans h.serial_eq, h'.serialLen_eq.trans h.serialLen_eq,
    h'.clear_eq.trans h.clear_eq, h'.cccPkiSlots_eq.trans h.cccPkiSlots_eq,
    h'.cccBufferProperties_eq.trans h.cccBufferProperties_eq, hcplp.trans h.cplpDataOf_eq⟩

/-- Writing the serial number again changes nothing. -/
theorem cplpDataOf_cplpDataOf (serial : ByteArr 32) (serialLen : ℕ)
    (cplpData : ByteArr cplpDataSize) :
    cplpDataOf serial serialLen (cplpDataOf serial serialLen cplpData)
      = cplpDataOf serial serialLen cplpData := by
  unfold cplpDataOf
  split_ifs
  · exact Subtype.ext (splice_over (by simp [serial.2, cplpData.2, cplpDataSize]) rfl)
  · rfl

theorem CardStep.lasts {r : Processed τ} (hok : CardOk card) (h : CardStep emul card apdu r) :
    Lasts card r.card := by
  obtain ⟨hserial, hserialLen⟩ := h.serial_eq
  cases h with
  | answer | windows | deselect | loginStatus | login | nextBytes =>
    exact ⟨hserial, hserialLen, rfl, rfl, rfl, rfl⟩
  | serial =>
    exact ⟨hserial, hserialLen, rfl, rfl, rfl, cplpDataOf_cplpDataOf _ _ _⟩
  | handle _ ha hp h _ =>
    have hclear := h.clear (hok.applets _ (List.mem_of_getElem? ha)).1 hp
    exact ⟨hserial, hserialLen, map_set_of ha hclear, rfl, rfl, rfl⟩
  | select _ _ ha _ =>
    have hclear := (hok.applets _ (List.mem_of_getElem? ha)).1.clear_clear
    exact ⟨hserial, hserialLen, map_set_of ha hclear, rfl, rfl, rfl⟩

theorem cardStep_lasts {op : CardOp} {reply : Option CardReply} (hok : CardOk card)
    (h : cardStep emul card op = .ok (reply, card')) : Lasts card card' := by
  rcases cardStep_eq_ok hok h with ⟨apdu, r, rfl, -, hstep, rfl, rfl⟩ | ⟨power, rfl, rfl, rfl⟩
  · have hlasts := hstep.lasts hok.start
    exact ⟨hlasts.serial_eq, hlasts.serialLen_eq, hlasts.clear_eq, hlasts.cccPkiSlots_eq,
      hlasts.cccBufferProperties_eq, hlasts.cplpDataOf_eq⟩
  · exact ⟨rfl, rfl, rfl, rfl, rfl, rfl⟩

theorem run_lasts : ∀ {ops : List CardOp} {card : VCard τ} {replies : List (Option CardReply)},
    CardOk card → run (cardStep emul) card ops = .ok (replies, card') →
    Lasts card card' ∧ CardOk card'
  | [], card, replies, hok, h => by
    simp only [run, Except.ok.injEq, Prod.mk.injEq] at h
    obtain ⟨-, rfl⟩ := h
    exact ⟨⟨rfl, rfl, rfl, rfl, rfl, rfl⟩, hok⟩
  | op :: ops, card, replies, hok, h => by
    obtain ⟨reply, card₁, replies', hstep, hrun, -⟩ := run_cons_eq_ok.1 h
    obtain ⟨hlasts, hok'⟩ := run_lasts (cardStep_cardOk hok hstep) hrun
    exact ⟨(cardStep_lasts hok hstep).trans hlasts, hok'⟩

end Unchanged

section InStep

/-- The statics are the same to a session, up to bytes of the template that it writes over. -/
structure Statics.Alike (s : Session τ) (st st' : Statics) : Prop where
  cccBufferProperties_eq : st'.cccBufferProperties = st.cccBufferProperties
  cplpDataOf_eq : cplpDataOf s.serial s.serialLen st'.cplpData
    = cplpDataOf s.serial s.serialLen st.cplpData

/-- No command can tell the cards apart: what differs are the calls of the last command, applets
that are not current, up to their reset, and bytes of a template that are written over. -/
structure InStep (card card' : VCard τ) : Prop where
  session_eq : { card'.toSession with calls := [] } = { card.toSession with calls := [] }
  currentApplet_eq : card'.currentApplet = card.currentApplet
  clear_eq : card'.applets.map VCardApplet.clear = card.applets.map VCardApplet.clear
  current : ∀ channel i, card.currentApplet channel = some i →
    card'.applets[i]? = card.applets[i]?
  statics : card.statics.Alike card.toSession card'.statics

/-- Results a command cannot be told apart by. -/
inductive SameResult : Except Fault (Processed τ) → Except Fault (Processed τ) → Prop
  | error (e : Fault) : SameResult (.error e) (.error e)
  | ok {r r' : Processed τ} (hstatus : r'.status = r.status) (hresponse : r'.response = r.response)
    (hcard : InStep r.card r'.card) : SameResult (.ok r) (.ok r')

theorem InStep.start (h : InStep card card') (apdu : VCardAPDU) :
    InStep (card.start apdu) (card'.start apdu)
      ∧ (card'.start apdu).toSession = (card.start apdu).toSession := by
  have hs := h.session_eq
  simp only [Session.mk.injEq, and_true] at hs
  obtain ⟨hb, hcompat, hserial, hserialLen, htoken⟩ := hs
  have hsession : (card'.start apdu).toSession = (card.start apdu).toSession := by
    simp only [VCard.start, hb, hcompat, hserial, hserialLen, htoken]
  exact ⟨⟨by rw [hsession], h.currentApplet_eq, h.clear_eq, h.current,
    ⟨h.statics.cccBufferProperties_eq, h.statics.cplpDataOf_eq⟩⟩, hsession⟩

theorem gpProcessApdu_alike {s : Session τ} {p : Option VCardAppletPrivate}
    {c c' : ByteArr cplpDataSize}
    (h : cplpDataOf s.serial s.serialLen c' = cplpDataOf s.serial s.serialLen c) :
    SameOutput (fun d d' => cplpDataOf s.serial s.serialLen d' = cplpDataOf s.serial s.serialLen d)
      (gpAppletContainerProcessApdu c p s apdu) (gpAppletContainerProcessApdu c' p s apdu) := by
  unfold gpAppletContainerProcessApdu
  by_cases hins : apdu.aIns = Ins.getData
  · simp only [hins, h]
    split_ifs
    · rcases vcardResponseNew s (cplpDataOf s.serial s.serialLen c).1 cplpDataSize apdu.aLe
        Status.success with e | r
      · exact .error e
      · exact .ok _ rfl
    · rcases vcardResponseNew s cardRecognitionData cardRecognitionData.length apdu.aLe
        Status.success with e | r
      · exact .error e
      · exact .ok _ h
    · exact .ok _ h
  · split
    · exact absurd ‹_› hins
    · exact .ok _ h

/-- The handlers are given the same, up to the template. -/
theorem run_alike (a : VCardApplet) {s : Session τ} {st st' : Statics} (h : st.Alike s st') :
    SameOutput (Statics.Alike s) (a.processApdu.run emul st a.appletPrivate s apdu)
      (a.processApdu.run emul st' a.appletPrivate s apdu) := by
  have hsame : ∀ x : Except Fault (Handled τ),
      SameOutput (Statics.Alike s) (do return (← x, st)) (do return (← x, st')) := fun x => by
    cases x with
    | error e => exact .error e
    | ok r => exact .ok r h
  obtain ⟨process, reset, aid, p⟩ := a
  unfold VCardProcessAPDU.run
  simp only [h.cccBufferProperties_eq]
  cases process with
  | gp =>
    have hgp := @gpProcessApdu_alike _ apdu s p _ _ h.cplpDataOf_eq
    dsimp only
    rcases hr : gpAppletContainerProcessApdu st.cplpData p s apdu with e | ⟨r, d⟩ <;>
      rcases hr' : gpAppletContainerProcessApdu st'.cplpData p s apdu with e' | ⟨r', d'⟩ <;>
      rw [hr, hr'] at hgp <;> cases hgp
    · exact .error e
    · exact .ok r ⟨rfl, ‹_›⟩
  | msft => exact hsame (msftAppletContainerProcessApdu p s apdu)
  | cacCommonRead =>
    cases p with
    | none => exact .error _
    | some p => exact hsame (cacCommonProcessApduRead st.cccBufferProperties p s apdu)
  | cacPki =>
    cases p with
    | none => exact .error _
    | some p => exact hsame (cacAppletPkiProcessApdu st.cccBufferProperties emul p s apdu)
  | cacAca =>
    cases p with
    | none => exact .error _
    | some p => exact hsame (cacAppletAcaProcessApdu st.cccBufferProperties p s apdu)
  | cacPassthrough =>
    cases p with
    | none => exact .error _
    | some p =>
      exact hsame (cacPassthroughContainerProcessApdu st.cccBufferProperties emul p s apdu)

theorem InStep.aids_eq (h : InStep card card') :
    card'.applets.map VCardApplet.aid = card.applets.map VCardApplet.aid := by
  have haids := congrArg (List.map VCardApplet.aid) h.clear_eq
  rwa [List.map_map, List.map_map] at haids

theorem InStep.getElem? (h : InStep card card') {i : ℕ} {a : VCardApplet}
    (ha : card.applets[i]? = some a) :
    ∃ a', card'.applets[i]? = some a' ∧ a'.clear = a.clear := by
  have hi := congrArg (fun l => l[i]?) h.clear_eq
  simp only [List.getElem?_map, ha, Option.map_some] at hi
  exact Option.map_eq_some_iff.1 hi

/-- What a step leaves is in step, if it only changes the session, and in the same way. -/
theorem InStep.withSession (h : InStep card card') {s : Session τ}
    (hserial : s.serial = card.serial ∧ s.serialLen = card.serialLen) :
    InStep { card with toSession := s } { card' with toSession := s } :=
  ⟨rfl, h.currentApplet_eq, h.clear_eq, h.current, ⟨h.statics.cccBufferProperties_eq, by
      have hcplp := h.statics.cplpDataOf_eq
      rwa [← hserial.1, ← hserial.2] at hcplp⟩⟩

/-- Both have the applet selected, which is reset. -/
theorem InStep.select (h : InStep card card') (hok : CardOk card) (hok' : CardOk card') {i : ℕ}
    {a a' : VCardApplet} {s : Session τ} (ha : card.applets[i]? = some a)
    (ha' : card'.applets[i]? = some a')
    (hclear : a'.clear = a.clear) (channel : Fin maxChannel)
    (hserial : s.serial = card.serial ∧ s.serialLen = card.serialLen) :
    InStep
      { card with
        toSession := s
        applets := card.applets.set i a.clear
        currentApplet := Function.update card.currentApplet channel (some i) }
      { card' with
        toSession := s
        applets := card'.applets.set i a'.clear
        currentApplet := Function.update card'.currentApplet channel (some i) } := by
  have hlt := (List.getElem?_eq_some_iff.1 ha).1
  have hlt' := (List.getElem?_eq_some_iff.1 ha').1
  refine ⟨rfl, ?_, ?_, ?_, (h.withSession hserial).statics⟩
  · rw [h.currentApplet_eq]
  · rw [map_set_of ha (hok.applets a (List.mem_of_getElem? ha)).1.clear_clear,
      map_set_of ha' (hok'.applets a' (List.mem_of_getElem? ha')).1.clear_clear]
    exact h.clear_eq
  · intro c j hj
    by_cases hij : i = j
    · subst hij
      rw [List.getElem?_set_self hlt, List.getElem?_set_self hlt', hclear]
    · rw [List.getElem?_set_ne hij, List.getElem?_set_ne hij]
      refine h.current c j ?_
      simp only [Function.update_apply] at hj
      split_ifs at hj
      · exact absurd (Option.some.inj hj) hij
      · exact hj

end InStep

section Iso

theorem vmSelectFile_inStep (hok : CardOk card) (hok' : CardOk card') (h : InStep card card')
    (hsession : card'.toSession = card.toSession) (hiso : apdu.IsIso)
    (hins : apdu.aIns = Ins.selectFile) :
    SameResult (vmSelectFile card apdu) (vmSelectFile card' apdu) := by
  by_cases hP1 : apdu.aP1 = 0x04
  swap
  · unfold vmSelectFile
    rw [if_pos hP1, if_pos hP1]
    exact .ok rfl rfl h
  have hselects : apdu.Selects apdu.body := ⟨hiso, hins, hP1, rfl⟩
  have hfind' := vcardFindApplet_congr h.aids_eq apdu.body
  rcases hfind : vcardFindApplet card.applets apdu.body with _ | i
  · rw [hfind] at hfind'
    unfold vmSelectFile
    rw [if_neg (not_not.2 hP1), if_neg (not_not.2 hP1)]
    simp only [hfind, hfind', vcardSelectApplet_none, ok_bind, if_true]
    refine .ok rfl rfl ⟨h.session_eq, ?_, h.clear_eq, fun c j hj => ?_, h.statics⟩
    · exact congrArg (fun f => Function.update f apdu.channel none) h.currentApplet_eq
    · refine h.current c j ?_
      simp only [Processed.withStatus, Processed.answer, Function.update_apply] at hj
      split_ifs at hj
      exact hj
  · rw [hfind] at hfind'
    obtain ⟨a, ha, -⟩ := vcardFindApplet_eq_some hfind
    obtain ⟨a', ha', hclear⟩ := h.getElem? ha
    obtain ⟨r, s, hr, hans⟩ := vmSelectFile_found hok hselects hfind ha
    obtain ⟨r', s', hr', hans'⟩ := vmSelectFile_found hok' hselects hfind' ha'
    rw [hsession, hans, Prod.mk.injEq] at hans'
    obtain ⟨rfl, rfl⟩ := hans'
    rw [hr, hr']
    have hanswered : Answered card.toSession apdu.aLe (r, s) := hans ▸ .payload _ _
    exact .ok rfl rfl (h.select hok hok' ha ha' hclear apdu.channel hanswered.serial_eq)

theorem vmVerify_inStep (h : InStep card card') (hsession : card'.toSession = card.toSession) :
    SameResult (.ok (vmVerify emul card apdu)) (.ok (vmVerify emul card' apdu)) := by
  obtain ⟨s, applets, current, type, st⟩ := card
  obtain ⟨s', applets', current', type', st'⟩ := card'
  obtain rfl : s' = s := hsession
  have hsame : ∀ {s : Session τ} {r : VCardResponse},
      s.serial = s'.serial ∧ s.serialLen = s'.serialLen →
      SameResult (.ok (.answer ⟨s, applets, current, type, st⟩ r))
        (.ok (.answer ⟨s, applets', current', type', st'⟩ r)) := fun hs =>
    .ok rfl rfl (h.withSession hs)
  unfold vmVerify
  dsimp only
  split_ifs <;> exact hsame ⟨rfl, rfl⟩

theorem vmGetResponse_inStep (h : InStep card card') (hsession : card'.toSession = card.toSession) :
    SameResult (vmGetResponse card apdu) (vmGetResponse card' apdu) := by
  have hb' : card'.bufferResponse = card.bufferResponse := congrArg _ hsession
  rcases hb : card.bufferResponse with _ | b
  · rw [hb] at hb'
    unfold vmGetResponse
    rw [hb, hb']
    exact .ok rfl rfl h
  · rw [hb] at hb'
    rw [vmGetResponse_some apdu hb, vmGetResponse_some apdu hb', hsession]
    exact .ok rfl rfl (h.withSession ⟨rfl, rfl⟩)

/-- The ISO layer answers both alike. -/
theorem vcard7816VmProcessApdu_inStep (hok : CardOk card) (hok' : CardOk card')
    (h : InStep card card') (hsession : card'.toSession = card.toSession) :
    SameResult (vcard7816VmProcessApdu emul card apdu)
      (vcard7816VmProcessApdu emul card' apdu) := by
  have hstatus : ∀ status, SameResult (.ok (.withStatus card status))
      (.ok (.withStatus card' status)) := fun status => .ok rfl rfl h
  unfold vcard7816VmProcessApdu
  split_ifs with hgen hsm
  · exact hstatus _
  · exact hstatus _
  · have hiso : apdu.IsIso := ⟨not_not.1 hgen, not_not.1 hsm⟩
    split
    · exact vmSelectFile_inStep hok hok' h hsession hiso ‹_›
    · exact vmVerify_inStep h hsession
    · exact vmGetResponse_inStep h hsession
    · exact hstatus _

/-- An applet that both have answers both alike. -/
theorem toProcessed_inStep (h : InStep card card') {i : ℕ} {a : VCardApplet} {r : Handled τ}
    {st st' : Statics} (ha : card.applets[i]? = some a) (ha' : card'.applets[i]? = some a)
    (hst : st.Alike r.session st') :
    InStep (r.toProcessed card i a st).card (r.toProcessed card' i a st').card := by
  have hlt := (List.getElem?_eq_some_iff.1 ha).1
  have hlt' := (List.getElem?_eq_some_iff.1 ha').1
  refine ⟨rfl, h.currentApplet_eq, ?_, fun c j hj => ?_, hst⟩
  · change (List.set _ _ _).map _ = (List.set _ _ _).map _
    rw [List.map_set, List.map_set, h.clear_eq]
  · change (List.set _ _ _)[j]? = (List.set _ _ _)[j]?
    by_cases hij : i = j
    · subst hij
      rw [List.getElem?_set_self hlt, List.getElem?_set_self hlt']
    · rw [List.getElem?_set_ne hij, List.getElem?_set_ne hij, h.current c j hj]

/-- The serial number of a card stays as it is. -/
theorem vcardProcessApdu_serial_eq {r : Processed τ} (hok : CardOk card)
    (hr : vcardProcessApdu emul card apdu = .ok r) :
    r.card.serial = card.serial ∧ r.card.serialLen = card.serialLen := by
  rcases vcardProcessApdu_step hok with ⟨r', hr', hstep, -⟩ | ⟨he, -⟩
  · obtain rfl := Except.ok.inj (hr.symm.trans hr')
    exact hstep.serial_eq
  · rw [he] at hr
    cases hr

/-- A command is answered alike by both. -/
theorem vcardProcessApdu_inStep (hok : CardOk card) (hok' : CardOk card') (h : InStep card card') :
    SameResult (vcardProcessApdu emul card apdu) (vcardProcessApdu emul card' apdu) := by
  obtain ⟨hstart, hsession⟩ := h.start apdu
  have hiso := @vcard7816VmProcessApdu_inStep _ emul _ _ apdu hok.start hok'.start hstart hsession
  rcases hi : card.currentApplet apdu.channel with _ | i
  · have hi' : card'.currentApplet apdu.channel = none := by rw [h.currentApplet_eq, hi]
    rw [vcardProcessApdu_passed hok (vcardProcessAppletApdu_none hi),
      vcardProcessApdu_passed hok' (vcardProcessAppletApdu_none hi')]
    exact hiso
  have hi' : card'.currentApplet apdu.channel = some i := by rw [h.currentApplet_eq, hi]
  obtain ⟨a, ha⟩ : ∃ a, card.applets[i]? = some a :=
    ⟨_, List.getElem?_eq_getElem (hok.current _ _ hi)⟩
  have ha' : card'.applets[i]? = some a := (h.current _ _ hi).trans ha
  have hrun := @run_alike _ emul apdu a _ _ _ hstart.statics
  have happlet' := vcardProcessApdu_applet emul hok' hi' ha'
  rw [hsession] at happlet'
  change SameOutput _ (a.processApdu.run emul card.statics _ _ _)
    (a.processApdu.run emul card'.statics _ _ _) at hrun
  rcases vcardProcessApdu_applet emul hok hi ha with
    ⟨e, hr, hp⟩ | ⟨hr, hp⟩ | ⟨r, st, hr, hnext, hp⟩
  · rcases happlet' with ⟨e', hr', hp'⟩ | ⟨hr', -⟩ | ⟨r', st', hr', -⟩ <;>
      rw [hr, hr'] at hrun <;> cases hrun
    rw [hp, hp']
    exact .error e
  · rcases happlet' with ⟨e', hr', -⟩ | ⟨-, hp'⟩ | ⟨r', st', hr', hnext', -⟩
    · rw [hr, hr'] at hrun
      cases hrun
    · rw [hp, hp']
      exact hiso
    · rw [hr, hr'] at hrun
      cases hrun
      exact absurd rfl hnext'
  · rcases happlet' with ⟨e', hr', -⟩ | ⟨hr', -⟩ | ⟨r', st', hr', -, hp'⟩ <;>
      rw [hr, hr'] at hrun <;> cases hrun
    · exact absurd rfl hnext
    · rename_i hst
      rw [hp, hp']
      refine .ok rfl rfl (toProcessed_inStep hstart ha ha' ?_)
      have hserial : r.session.serial = card.serial ∧ r.session.serialLen = card.serialLen :=
        vcardProcessApdu_serial_eq hok hp
      exact ⟨hst.cccBufferProperties_eq, by rw [hserial.1, hserial.2]; exact hst.cplpDataOf_eq⟩

theorem cardStep_inStep (emul : Emul τ) (apdu : VCardAPDU)
    (h : CardOk card ∧ CardOk card' ∧ InStep card card') :
    SameOutput (fun card card' => CardOk card ∧ CardOk card' ∧ InStep card card')
      (cardStep emul card (.apdu apdu)) (cardStep emul card' (.apdu apdu)) := by
  obtain ⟨hok, hok', h⟩ := h
  have hsame := @vcardProcessApdu_inStep _ emul _ _ apdu hok hok' h
  rcases hr : vcardProcessApdu emul card apdu with e | r <;>
    rcases hr' : vcardProcessApdu emul card' apdu with e' | r' <;>
    rw [hr, hr'] at hsame <;> cases hsame
  · simp only [cardStep, hr, hr']
    exact .error e
  · rename_i hstatus hresponse hcard
    rw [cardStep_apdu hr, cardStep_apdu hr', hstatus, hresponse]
    exact .ok _ ⟨cardStep_cardOk hok (cardStep_apdu hr), cardStep_cardOk hok' (cardStep_apdu hr'),
      hcard⟩

theorem run_inStep (emul : Emul τ) (apdus : List VCardAPDU)
    (h : CardOk card ∧ CardOk card' ∧ InStep card card') :
    SameOutput (fun card card' => CardOk card ∧ CardOk card' ∧ InStep card card')
      (run (cardStep emul) card (apdus.map .apdu))
      (run (cardStep emul) card' (apdus.map .apdu)) := by
  rw [run_map, run_map]
  exact run_sameOutput (fun _ _ apdu => cardStep_inStep emul apdu) apdus h

end Iso

section Fresh

variable {digest : Bytes → Option Bytes} {token token' : τ} {st st' : Statics}
  {certs : List (Bytes × VCardKey)}

theorem vcardBare_again : vcardBare digest token' st' certs
    = { vcardBare digest token st certs with token := token', statics := st' } := by
  unfold vcardBare
  rcases certs with _ | ⟨⟨cert, key⟩, certs⟩
  · rfl
  · dsimp only
    cases digest cert <;> rfl

/-- Of the statics the CCC depends on its slots alone. -/
theorem cacNewCccApplet_again {n : ℕ} {ccc : Option VCardApplet} {st₁ : Statics}
    (hn : n ≤ maxPkiApplets) (h : cacNewCccApplet st n = .ok (ccc, st₁))
    (hslots : fillSlots st'.cccPkiSlots n = st₁.cccPkiSlots) :
    cacNewCccApplet st' n = .ok (ccc, { st₁ with cplpData := st'.cplpData }) := by
  rw [cacNewCccApplet_eq st hn] at h
  obtain ⟨rfl, rfl⟩ := Prod.mk.inj (Except.ok.inj h)
  rw [cacNewCccApplet_eq st' hn]
  dsimp only at hslots
  simp only [hslots]

/-- The applets can be built again where the CCC has the same slots. -/
theorem MadeOf.again {st₁ : Statics} {applets : List VCardApplet}
    (h : MadeOf emul certs st st₁ applets)
    (hslots : fillSlots st'.cccPkiSlots certs.length = st₁.cccPkiSlots) :
    MadeOf emul certs st' { st₁ with cplpData := st'.cplpData } applets := by
  obtain ⟨hcount, pkis, ccc, containers, hpkis, hccc, hcontainers, rfl⟩ := h
  exact ⟨hcount, pkis, ccc, containers, hpkis, cacNewCccApplet_again hcount hccc hslots,
    hcontainers, rfl⟩

/-- What a card is made of does not depend on its token, and of the statics only on the slots of
the CCC. -/
theorem vcardEmulMakeCard_again
    (h : vcardEmulMakeCard emul digest token st certs = .ok (.done, card))
    (hslots : fillSlots st'.cccPkiSlots certs.length = card.statics.cccPkiSlots) :
    vcardEmulMakeCard emul digest token' st' certs = .ok (.done, { card with
      token := token', statics := { card.statics with cplpData := st'.cplpData } }) := by
  obtain ⟨hvm, hnil, hst⟩ := @vcardBare_new _ digest token st certs
  obtain ⟨hvm', hnil', hst'⟩ := @vcardBare_new _ digest token' st' certs
  rw [vcardEmulMakeCard_eq, vcardInit_done_iff hvm hnil, hst] at h
  obtain ⟨st₁, applets, hmade, rfl⟩ := h
  rw [vcardEmulMakeCard_eq, vcardInit_done_iff hvm' hnil', hst']
  refine ⟨_, applets, hmade.again hslots, ?_⟩
  rw [@vcardBare_again _ digest token token' st st' certs]

/-- What the making of a card leaves in the statics. -/
theorem vcardEmulMakeCard_statics
    (h : vcardEmulMakeCard emul digest token st certs = .ok (.done, card)) :
    card.statics.cplpData = st.cplpData
      ∧ card.statics.cccPkiSlots = fillSlots st.cccPkiSlots certs.length := by
  obtain ⟨hvm, hnil, hst⟩ := @vcardBare_new _ digest token st certs
  rw [vcardEmulMakeCard_eq, vcardInit_done_iff hvm hnil, hst] at h
  obtain ⟨st₁, applets, ⟨hcount, pkis, ccc, containers, -, hccc, -⟩, rfl⟩ := h
  rw [cacNewCccApplet_eq st hcount] at hccc
  obtain ⟨-, rfl⟩ := Prod.mk.inj (Except.ok.inj hccc)
  exact ⟨rfl, rfl⟩

theorem fillSlots_fillSlots (slots : Fin maxPkiApplets → Option (ByteArr 16)) (n : ℕ) :
    fillSlots (fillSlots slots n) n = fillSlots slots n := by
  funext i
  unfold fillSlots
  split_ifs <;> rfl

/-- A card that is reset after any run answers every sequence of commands as a card does that was
just made of the same certificates, with the same token and compatibility bits, whether its program
is as it was when the card was made or as it is now. The run is the card's own: what cards that the
program makes in between leave in the statics is not looked at here. -/
theorem reset_forgets {ops : List CardOp} {replies : List (Option CardReply)} {card₁ : VCard τ}
    (hmade : vcardEmulMakeCard emul digest token st certs = .ok (.done, card))
    (hrun : run (cardStep emul) card ops = .ok (replies, card₁)) (power : VCardPower) :
    ∃ card₂, vcardReset emul card₁ power = .ok card₂
      ∧ ∀ st', st' = st ∨ st' = card₂.statics →
        ∃ fresh, vcardEmulMakeCard emul digest card₂.token st' certs = .ok (.done, fresh)
          ∧ ∀ apdus : List VCardAPDU,
            (run (cardStep emul) card₂ (apdus.map .apdu)).map Prod.fst
              = (run (cardStep emul) { fresh with compat := card₂.compat }
                (apdus.map .apdu)).map Prod.fst := by
  have hfresh := vcardEmulMakeCard_fresh hmade
  obtain ⟨hcplp, hslots⟩ := vcardEmulMakeCard_statics hmade
  obtain ⟨hlasts, hok₁⟩ := run_lasts hfresh.cardOk hrun
  refine ⟨_, vcardReset_eq hok₁ power, fun st' hst' => ?_⟩
  have hst : fillSlots st'.cccPkiSlots certs.length = card.statics.cccPkiSlots
      ∧ cplpDataOf card.serial card.serialLen st'.cplpData
        = cplpDataOf card.serial card.serialLen card₁.statics.cplpData := by
    rcases hst' with rfl | rfl
    · exact ⟨hslots.symm, by rw [← hcplp]; exact hlasts.cplpDataOf_eq.symm⟩
    · refine ⟨?_, rfl⟩
      change fillSlots card₁.statics.cccPkiSlots _ = _
      rw [hlasts.cccPkiSlots_eq, hslots, fillSlots_fillSlots]
  refine ⟨_, vcardEmulMakeCard_again hmade hst.1, fun apdus => ?_⟩
  refine (run_inStep emul apdus ⟨cardOk_reset hok₁ power, ?_, ?_⟩).map_fst
  · exact ⟨hfresh.cardOk.type, hfresh.cardOk.applets, hfresh.cardOk.current⟩
  · refine ⟨?_, funext hfresh.current, hlasts.clear_eq.symm, ?_, ?_, ?_⟩
    · simp only [hfresh.bufferResponse, hlasts.serial_eq, hlasts.serialLen_eq]
    · intro channel i hi
      cases hi
    · exact hlasts.cccBufferProperties_eq.symm
    · dsimp only
      rw [hlasts.serial_eq, hlasts.serialLen_eq]
      exact hst.2

end Fresh

theorem reset_forgets_selectPersonInstance : ∃ (card card₁ card₂ : VCard Unit)
    (replies : List (Option CardReply)),
    vcardEmulMakeCard (Emul.plain none nofun) (fun _ => none) () .initial [] = .ok (.done, card)
      ∧ run (cardStep (Emul.plain none nofun)) card
          [.apdu selectPersonInstance, .apdu readValues] = .ok (replies, card₁)
      ∧ vcardReset (Emul.plain none nofun) card₁ .on = .ok card₂
      ∧ ∀ st', st' = Statics.initial ∨ st' = card₂.statics → ∃ fresh,
        vcardEmulMakeCard (Emul.plain none nofun) (fun _ => none) card₂.token st' []
            = .ok (.done, fresh)
          ∧ ∀ apdus : List VCardAPDU,
            (run (cardStep (Emul.plain none nofun)) card₂ (apdus.map .apdu)).map Prod.fst
              = (run (cardStep (Emul.plain none nofun)) { fresh with compat := card₂.compat }
                (apdus.map .apdu)).map Prod.fst := by
  obtain ⟨card, hmade, hcheck⟩ := exists_of_madeWith (show madeWith
    (fun card => (run (cardStep (Emul.plain none nofun)) card
      [.apdu selectPersonInstance, .apdu readValues]).isOk)
    (vcardEmulMakeCard (Emul.plain none nofun) (fun _ => none) () .initial []) by decide +kernel)
  rcases hrun : run (cardStep (Emul.plain none nofun)) card
    [.apdu selectPersonInstance, .apdu readValues] with e | ⟨replies, card₁⟩
  · rw [hrun] at hcheck
    cases hcheck
  · obtain ⟨card₂, hreset, h⟩ := reset_forgets hmade hrun .on
    exact ⟨card, card₁, card₂, replies, hmade, hrun, hreset, h⟩

end Libcacard
