import Libcacard.Card7816
import Libcacard.GetResponse
import Libcacard.Proofs.Handlers

/-!
# One command

Processing a command on a card that meets the invariant is one of the steps a card can take,
unless a number is computed that is no `int`. Each step keeps the invariant.
-/

namespace Libcacard

open Machine

variable {τ : Type} {emul : Emul τ} {card : VCard τ} {apdu : VCardAPDU}

theorem vcardFindApplet_eq_some {applets : List VCardApplet} {aid : Bytes} {i : ℕ}
    (h : vcardFindApplet applets aid = some i) : ∃ a, applets[i]? = some a ∧ a.aid = aid := by
  have hfound := List.find?_some h
  rcases ha : applets[i]? with _ | a
  · simp [ha] at hfound
  · exact ⟨a, rfl, by simpa [ha] using hfound⟩

/-- Only the AIDs count. -/
theorem vcardFindApplet_congr {as bs : List VCardApplet}
    (h : as.map VCardApplet.aid = bs.map VCardApplet.aid) (aid : Bytes) :
    vcardFindApplet as aid = vcardFindApplet bs aid := by
  have hlen : as.length = bs.length := by simpa using congrArg List.length h
  have hany : ∀ i : ℕ, as[i]?.any (fun a => a.aid = aid) = bs[i]?.any (fun a => a.aid = aid) := by
    intro i
    have hi := congrArg (fun l => (l[i]?).any fun x => decide (x = aid)) h
    simpa only [List.getElem?_map, Option.any_map, Function.comp_def] using hi
  simp only [vcardFindApplet, hlen, hany]

section Selecting

theorem set_of_getElem? {α : Type} {l : List α} {i : ℕ} {a : α} (h : l[i]? = some a) :
    l.set i a = l := by
  obtain ⟨hi, rfl⟩ := List.getElem?_eq_some_iff.1 h
  exact List.set_getElem_self hi

theorem map_set_of {α β : Type} {f : α → β} {l : List α} {i : ℕ} {a b : α} (ha : l[i]? = some a)
    (hb : f b = f a) : (l.set i b).map f = l.map f := by
  rw [List.map_set, hb]
  exact set_of_getElem? (by rw [List.getElem?_map, ha]; rfl)

theorem clear_of_no_reset {a : VCardApplet} (h : a.resetApplet = none) : a.clear = a := by
  obtain ⟨process, reset, aid, p⟩ := a
  obtain rfl : reset = none := h
  rfl

theorem resetApplets_eq {applets : List VCardApplet} {i : ℕ} {a : VCardApplet}
    {reset : VCardResetApplet} (ha : applets[i]? = some a) (hok : AppletOk a)
    (hreset : a.resetApplet = some reset) :
    resetApplets applets i reset = .ok (applets.set i a.clear) := by
  unfold resetApplets
  rw [ha]
  cases hok with
  | pki h hu =>
    obtain rfl : VCardResetApplet.pki = reset := Option.some.inj hreset
    simp only [assertPrivate, ok_bind, VCardResetApplet.run, cacAppletPkiReset, hu, pkiData,
      pure_eq, VCardApplet.clear]
  | passthrough h hu =>
    obtain rfl : VCardResetApplet.passthrough = reset := Option.some.inj hreset
    rfl
  | commonRead | aca | gp | msft => simp at hreset

theorem vcardSelectApplet_none :
    vcardSelectApplet card apdu.aChannel none = .ok { card with
      currentApplet := Function.update card.currentApplet apdu.channel none } := by
  unfold vcardSelectApplet
  rw [dif_pos apdu.aChannel_lt_max]
  rfl

theorem vcardSelectApplet_some {i : ℕ} {a : VCardApplet} (ha : card.applets[i]? = some a)
    (hok : AppletOk a) :
    vcardSelectApplet card apdu.aChannel (some i) = .ok { card with
      applets := card.applets.set i a.clear
      currentApplet := Function.update card.currentApplet apdu.channel (some i) } := by
  have hself := set_of_getElem? ha
  unfold vcardSelectApplet
  rw [dif_pos apdu.aChannel_lt_max]
  simp only [ha]
  rcases hreset : a.resetApplet with _ | reset
  · simp only [clear_of_no_reset hreset, hself]
    rfl
  · simp only [resetApplets_eq ha hok hreset, ok_bind]
    rfl

end Selecting

section Iso

theorem length_fciTemplate {aid : Bytes} (h : aid.length ≤ 16) : (fciTemplate aid).length = 22 := by
  have h22 : fciTemplateInit.length = 22 := rfl
  unfold fciTemplate
  simp only [List.length_set]
  rw [length_splice (by simp only [List.length_set, h22]; omega)]
  simp only [List.length_set, h22]

theorem clear_aid (a : VCardApplet) : a.clear.aid = a.aid := rfl

/-- The template with the AID in it. -/
theorem fciTemplate_take {aid : Bytes} (h : aid.length ≤ 16) :
    (fciTemplate aid).take (6 + aid.length)
      = [0x6f, UInt8.ofNat (aid.length + 4), 0x84, UInt8.ofNat aid.length] ++ aid ++ [0xa5, 0x00] := by
  let zeros : Bytes := List.replicate 16 0x00 ++ [0xa5, 0x00]
  let front : Bytes := [0x6f, UInt8.ofNat (aid.length + 4), 0x84, UInt8.ofNat aid.length]
  obtain ⟨u, v, rest, hrest⟩ : ∃ u v rest, zeros.drop aid.length = u :: v :: rest := by
    have hlen : 2 ≤ (zeros.drop aid.length).length := by
      rw [List.length_drop, show zeros.length = 18 from rfl]
      omega
    match zeros.drop aid.length, hlen with
    | u :: v :: rest, _ => exact ⟨u, v, rest, rfl⟩
  have hsplice : splice (front ++ zeros) 4 aid = front ++ (aid ++ u :: v :: rest) := by
    rw [splice_append_left (show front.length = 4 from rfl), splice, List.take_zero,
      List.nil_append, Nat.zero_add, hrest]
  have htemplate : fciTemplate aid = front ++ (aid ++ 0xa5 :: 0x00 :: rest) := by
    change ((splice (front ++ zeros) 4 aid).set (aid.length + 4) 0xa5).set (aid.length + 5) 0x00 = _
    rw [hsplice, List.set_append_right _ _ (show front.length ≤ aid.length + 4 by simp [front]),
      List.set_append_right _ _ (show front.length ≤ aid.length + 5 by simp [front]),
      List.set_append_right _ _ (by simp [front]), List.set_append_right _ _ (by simp [front])]
    simp [front]
  rw [htemplate, ← List.append_assoc, show 6 + aid.length = (front ++ aid).length + 2 by
    simp [front]; omega, List.take_length_add_append]
  rfl

/-- SELECT of an applet that is there. -/
theorem vmSelectFile_found (hok : CardOk card) {aid : Bytes} {i : ℕ} {a : VCardApplet}
    (hselects : apdu.Selects aid) (hi : vcardFindApplet card.applets aid = some i)
    (ha : card.applets[i]? = some a) :
    ∃ r s, vmSelectFile card apdu = .ok (.answer
        { card with
          toSession := s
          applets := card.applets.set i a.clear
          currentApplet := Function.update card.currentApplet apdu.channel (some i) } r)
      ∧ respond card.toSession (fci aid) apdu.aLe Status.success = (r, s) := by
  obtain ⟨-, -, hP1, rfl⟩ := hselects
  obtain ⟨b, hb, haid⟩ := vcardFindApplet_eq_some hi
  obtain rfl : a = b := Option.some.inj (ha.symm.trans hb)
  obtain ⟨haok, hlen⟩ := hok.applets a (List.mem_of_getElem? ha)
  rw [haid, apdu.length_body] at hlen
  have hfind : vcardFindApplet (card.applets.set i a.clear) gpAid
      = vcardFindApplet card.applets gpAid :=
    vcardFindApplet_congr (map_set_of ha (clear_aid a)) gpAid
  have hgp : some i = vcardFindApplet card.applets gpAid ↔ apdu.body = gpAid := by
    constructor
    · intro h
      obtain ⟨b, hb, hbaid⟩ := vcardFindApplet_eq_some h.symm
      obtain rfl : a = b := Option.some.inj (ha.symm.trans hb)
      exact haid.symm.trans hbaid
    · intro h
      rw [← hi, h]
  unfold vmSelectFile
  rw [if_neg (not_not.2 hP1)]
  simp only [hi, vcardSelectApplet_some ha haok, ok_bind, reduceCtorEq, if_false, hfind, hgp, fci]
  by_cases hbody : apdu.body = gpAid
  · rw [if_pos hbody, if_pos hbody, vcardResponseNew_all]
    exact ⟨_, _, rfl, rfl⟩
  · have hfci := length_fciTemplate (show apdu.body.length ≤ 16 by rw [apdu.length_body]; exact hlen)
    have h22 : fciTemplateInit.length = 22 := rfl
    rw [if_neg hbody, if_neg hbody, if_neg (by omega), vcardResponseNew_eq (by omega),
      ← apdu.length_body, fciTemplate_take (by rw [apdu.length_body]; exact hlen)]
    exact ⟨_, _, rfl, rfl⟩

theorem vmSelectFile_step (hok : CardOk card) (hiso : apdu.IsIso)
    (hins : apdu.aIns = Ins.selectFile) :
    ∃ r, vmSelectFile card apdu = .ok r ∧ CardStep emul card apdu r := by
  by_cases hP1 : apdu.aP1 = 0x04
  · have hselects : apdu.Selects apdu.body := ⟨hiso, hins, hP1, rfl⟩
    rcases hfind : vcardFindApplet card.applets apdu.body with _ | i
    · unfold vmSelectFile
      rw [if_neg (not_not.2 hP1)]
      simp only [hfind, vcardSelectApplet_none, ok_bind, if_true]
      exact ⟨_, rfl, .deselect hselects hfind⟩
    · obtain ⟨a, ha, -⟩ := vcardFindApplet_eq_some hfind
      obtain ⟨r, s, hr, hans⟩ := vmSelectFile_found hok hselects hfind ha
      exact ⟨_, hr, .select hselects hfind ha (hans ▸ .payload _ _)⟩
  · unfold vmSelectFile
    rw [if_pos hP1]
    exact ⟨_, rfl, .answer (.status _)⟩

theorem vmVerify_step (hins : apdu.aIns = Ins.verify) :
    CardStep emul card apdu (vmVerify emul card apdu) := by
  unfold vmVerify
  split_ifs with hP hLc
  · exact .answer (.status _)
  · dsimp only
    split_ifs
    · exact .loginStatus hins (.status _)
    · exact .loginStatus hins (.status _)
    · exact .loginStatus hins (.statusBytes _ _)
    · exact .loginStatus hins (.statusBytes _ _)
  · exact .login hins

theorem statusOf_partStatus (left : ℕ) :
    (if min 256 left ≠ 0 then (0x61 : UInt8) else 0x90).toUInt16 <<< 8
      ||| (UInt8.ofNat (min 256 left)).toUInt16 = partStatus left := by
  rcases Nat.eq_zero_or_pos left with rfl | h
  · rfl
  · rw [partStatus, if_pos (by omega), if_neg (by omega)]

/-- The next part of the pending response. -/
theorem vmGetResponse_some (apdu : VCardAPDU) {b : VCardBufferResponse}
    (hb : card.bufferResponse = some b) :
    vmGetResponse card apdu = .ok (.answer
      { card with toSession :=
        { card.toSession.log (.response (b.remaining.take apdu.aLe) apdu.aLe) with
          bufferResponse :=
            if b.len ≤ apdu.aLe then none
            else some (b.advance (min b.len apdu.aLe) (Nat.min_le_left _ _)) } }
      (dataResponse (b.remaining.take apdu.aLe) (partStatus (b.len - apdu.aLe)))) := by
  have hleft : b.len - min b.len apdu.aLe = b.len - apdu.aLe := by omega
  have htake : b.remaining.take (min b.len apdu.aLe) = b.remaining.take apdu.aLe := by
    rw [← b.length_remaining, Nat.min_comm, ← List.take_eq_take_min]
  have hdata : ¬ apdu.aLe < (b.remaining.take apdu.aLe).length := by
    simp only [List.length_take]
    omega
  have hzero : min 256 (b.len - apdu.aLe) = 0 ↔ b.len ≤ apdu.aLe := by omega
  unfold vmGetResponse
  rw [hb]
  dsimp only
  rw [vcardResponseNewBytes_eq (by rw [b.length_remaining]; omega), statusOf_partStatus, ok_bind]
  simp only [hleft, htake, respond, hdata, if_false, hzero]
  rfl

theorem vmGetResponse_step (hins : apdu.aIns = Ins.getResponse) :
    ∃ r, vmGetResponse card apdu = .ok r ∧ CardStep emul card apdu r := by
  rcases hb : card.bufferResponse with _ | b
  · unfold vmGetResponse
    rw [hb]
    exact ⟨_, rfl, .answer (.status _)⟩
  · have hresp : Answered card.toSession apdu.aLe
        (respond card.toSession (b.remaining.take apdu.aLe) apdu.aLe
          (partStatus (b.len - apdu.aLe))) := .payload _ _
    have hdata : ¬ apdu.aLe < (b.remaining.take apdu.aLe).length := by
      simp only [List.length_take]
      omega
    rw [respond, if_neg hdata] at hresp
    exact ⟨_, vmGetResponse_some apdu hb, .nextBytes hins hresp⟩

theorem vcard7816VmProcessApdu_step (hok : CardOk card) :
    ∃ r, vcard7816VmProcessApdu emul card apdu = .ok r ∧ CardStep emul card apdu r := by
  unfold vcard7816VmProcessApdu
  split_ifs with hgen hsm
  · exact ⟨_, rfl, .answer (.status _)⟩
  · exact ⟨_, rfl, .answer (.status _)⟩
  · have hiso : apdu.IsIso := ⟨not_not.1 hgen, not_not.1 hsm⟩
    split
    · exact vmSelectFile_step hok hiso ‹_›
    · exact ⟨_, rfl, vmVerify_step ‹_›⟩
    · exact vmGetResponse_step ‹_›
    · exact ⟨_, rfl, .answer (.status _)⟩

end Iso

section Command

theorem aType_ne_pts (apdu : VCardAPDU) : apdu.aType ≠ VCardAPDUType.pts.value := by
  have hnibble : ∀ n : Fin 256, (UInt8.ofNat n &&& 0xf0).toNat ≠ 2 := by decide +kernel
  have h := hnibble ⟨apdu.aCla.toNat, apdu.aCla.toNat_lt⟩
  rw [UInt8.ofNat_toNat] at h
  unfold VCardAPDU.aType vcardApduSetClass
  dsimp only
  split <;> exact h

theorem start_eq (card : VCard τ) (apdu : VCardAPDU) :
    (if apdu.aIns ≠ Ins.getResponse then { card with calls := [], bufferResponse := none }
      else { card with calls := [] }) = card.start apdu := by
  unfold VCard.start
  by_cases hins : apdu.aIns = Ins.getResponse
  · simp only [hins, ne_eq, not_true, if_false, if_true]
  · simp only [hins, ne_eq, not_false_eq_true, if_false, if_true]

/-- The applet gave an answer. -/
theorem vcardProcessApdu_handled {r : Processed τ}
    (h : vcardProcessAppletApdu emul (card.start apdu) apdu = .ok r) (hdone : r.status ≠ .next) :
    vcardProcessApdu emul card apdu = .ok r := by
  unfold vcardProcessApdu
  rw [if_neg (aType_ne_pts apdu)]
  dsimp only
  rw [start_eq, h, ok_bind, if_pos hdone]
  rfl

/-- The applet, if there is one, passed the command on. -/
theorem vcardProcessApdu_passed (hok : CardOk card)
    (h : vcardProcessAppletApdu emul (card.start apdu) apdu
      = .ok ⟨.next, none, card.start apdu⟩) :
    vcardProcessApdu emul card apdu = vcard7816VmProcessApdu emul (card.start apdu) apdu := by
  have htype : (card.start apdu).type = .vm := hok.type
  unfold vcardProcessApdu
  rw [if_neg (aType_ne_pts apdu)]
  dsimp only
  rw [start_eq, h, ok_bind]
  simp only [ne_eq, not_true, if_false, htype]

theorem vcardProcessApdu_error {e : Fault}
    (h : vcardProcessAppletApdu emul (card.start apdu) apdu = .error e) :
    vcardProcessApdu emul card apdu = .error e := by
  unfold vcardProcessApdu
  rw [if_neg (aType_ne_pts apdu)]
  dsimp only
  rw [start_eq, h]
  rfl

theorem CardOk.start (hok : CardOk card) : CardOk (card.start apdu) :=
  ⟨hok.type, hok.applets, hok.current⟩

theorem vcardProcessAppletApdu_none {card : VCard τ}
    (hi : card.currentApplet apdu.channel = none) :
    vcardProcessAppletApdu emul card apdu = .ok ⟨.next, none, card⟩ := by
  unfold vcardProcessAppletApdu
  unfold VCardAPDU.channel at hi
  rw [dif_pos apdu.aChannel_lt_max, hi]

theorem vcardProcessAppletApdu_some (emul : Emul τ) (card : VCard τ) {i : ℕ} {a : VCardApplet}
    (hi : card.currentApplet apdu.channel = some i) (ha : card.applets[i]? = some a) :
    vcardProcessAppletApdu emul card apdu = (do
      let (r, st) ← a.processApdu.run emul card.statics a.appletPrivate card.toSession apdu
      return r.toProcessed card i a st) := by
  unfold vcardProcessAppletApdu
  unfold VCardAPDU.channel at hi
  rw [dif_pos apdu.aChannel_lt_max, hi]
  simp only [ha]

/-- A handler that left its applet's data alone. -/
theorem toProcessed_self {card : VCard τ} {i : ℕ} {a : VCardApplet}
    (ha : card.applets[i]? = some a) (r : VCardResponse) (s : Session τ) (st : Statics) :
    (.ok (Handled.toProcessed card i a ⟨.done, some r, a.appletPrivate, s⟩ st) :
        Except Fault (Processed τ))
      = .ok (.answer { card with toSession := s, statics := st } r) := by
  change (.ok (.answer { card with toSession := s, statics := st, applets := card.applets.set i a }
    r) : Except Fault (Processed τ)) = _
  rw [set_of_getElem? ha]

/-- A handler that passed the command on. -/
theorem toProcessed_pass {card : VCard τ} {i : ℕ} {a : VCardApplet}
    (ha : card.applets[i]? = some a) :
    (.ok (Handled.toProcessed card i a (.pass a.appletPrivate card.toSession) card.statics) :
        Except Fault (Processed τ))
      = .ok ⟨.next, none, card⟩ := by
  change (.ok ⟨.next, none, { card with applets := card.applets.set i a }⟩ :
    Except Fault (Processed τ)) = _
  rw [set_of_getElem? ha]

theorem Outcome.pass_of_next {st st' : Statics} {process : VCardProcessAPDU}
    {p : Option VCardAppletPrivate} {h : Handled τ} (hout : Outcome emul st process p s apdu (h, st'))
    (hnext : h.status = .next) : h = .pass p s ∧ st' = st := by
  cases hout with
  | quiet hquiet =>
    cases hquiet with
    | pass => exact ⟨rfl, rfl⟩
    | answer => cases hnext
  | handle | serial | windows => cases hnext

/-- The current applet fails, passes the command on as it found everything, or answers it. -/
theorem vcardProcessApdu_applet (emul : Emul τ) (hok : CardOk card) {i : ℕ} {a : VCardApplet}
    (hi : card.currentApplet apdu.channel = some i) (ha : card.applets[i]? = some a) :
    (∃ e, a.processApdu.run emul card.statics a.appletPrivate (card.start apdu).toSession apdu
        = .error e ∧ vcardProcessApdu emul card apdu = .error e)
      ∨ (a.processApdu.run emul card.statics a.appletPrivate (card.start apdu).toSession apdu
          = .ok (.pass a.appletPrivate (card.start apdu).toSession, card.statics)
        ∧ vcardProcessApdu emul card apdu = vcard7816VmProcessApdu emul (card.start apdu) apdu)
      ∨ (∃ h st, a.processApdu.run emul card.statics a.appletPrivate (card.start apdu).toSession
          apdu = .ok (h, st) ∧ h.status ≠ .next
        ∧ vcardProcessApdu emul card apdu = .ok (h.toProcessed (card.start apdu) i a st)) := by
  have hprocess := vcardProcessAppletApdu_some emul (card.start apdu) hi ha
  rw [show (card.start apdu).statics = card.statics from rfl] at hprocess
  rcases hrun : a.processApdu.run emul card.statics a.appletPrivate (card.start apdu).toSession
    apdu with e | ⟨h, st⟩
  · rw [hrun] at hprocess
    exact .inl ⟨e, rfl, vcardProcessApdu_error hprocess⟩
  rw [hrun, ok_bind] at hprocess
  by_cases hnext : h.status = .next
  · have hruns : Runs emul card.statics a (card.start apdu).toSession apdu :=
      runs_of_ok (hok.applets a (List.mem_of_getElem? ha)).1
    rcases hruns with ⟨x, hx, hout, -⟩ | ⟨hx, -⟩
    · obtain rfl := Except.ok.inj (hx.symm.trans hrun)
      obtain ⟨rfl, rfl⟩ := hout.pass_of_next hnext
      exact .inr (.inl ⟨rfl, vcardProcessApdu_passed hok (hprocess.trans (toProcessed_pass ha))⟩)
    · cases hx.symm.trans hrun
  · exact .inr (.inr ⟨h, st, rfl, hnext, vcardProcessApdu_handled hprocess hnext⟩)

/-- Every command takes one of the steps, or overflows an `int`. -/
theorem vcardProcessApdu_step (hok : CardOk card) :
    (∃ r, vcardProcessApdu emul card apdu = .ok r ∧ CardStep emul (card.start apdu) apdu r
        ∧ ¬ CommandOverflows emul card apdu)
      ∨ (vcardProcessApdu emul card apdu = .error .overflow ∧ CommandOverflows emul card apdu) := by
  have hpassed (hno : ¬ CommandOverflows emul card apdu)
      (h : vcardProcessAppletApdu emul (card.start apdu) apdu
        = .ok ⟨.next, none, card.start apdu⟩) :
      ∃ r, vcardProcessApdu emul card apdu = .ok r ∧ CardStep emul (card.start apdu) apdu r
        ∧ ¬ CommandOverflows emul card apdu := by
    obtain ⟨r, hr, hstep⟩ := vcard7816VmProcessApdu_step
      (hok.start)
    exact ⟨r, (vcardProcessApdu_passed hok h).trans hr, hstep, hno⟩
  rcases hi : card.currentApplet apdu.channel with _ | i
  · refine .inl (hpassed ?_ (vcardProcessAppletApdu_none hi))
    rintro ⟨i, -, -, hi', -⟩
    rw [hi] at hi'
    cases hi'
  have hlt := hok.current _ _ hi
  obtain ⟨a, ha⟩ : ∃ a, card.applets[i]? = some a := ⟨_, List.getElem?_eq_getElem hlt⟩
  have hprocess := vcardProcessAppletApdu_some emul (card.start apdu) hi ha
  obtain ⟨haok, -⟩ := hok.applets a (List.mem_of_getElem? ha)
  rcases runs_of_ok (s := (card.start apdu).toSession)
    haok with ⟨r, hr, hout, hno⟩ | ⟨hr, p, hp, hover⟩
  · have hno : ¬ CommandOverflows emul card apdu := by
      rintro ⟨j, b, p, hj, hb, hp, hover⟩
      obtain rfl : i = j := Option.some.inj (hi.symm.trans hj)
      obtain rfl : a = b := Option.some.inj (ha.symm.trans hb)
      exact hno p hp hover
    rw [show (card.start apdu).statics = card.statics from rfl, hr, ok_bind] at hprocess
    left
    cases hout with
    | quiet hquiet =>
      cases hquiet with
      | pass => exact hpassed hno (hprocess.trans (toProcessed_pass ha))
      | answer hans =>
        exact ⟨_, vcardProcessApdu_handled (hprocess.trans (toProcessed_self ha _ _ _)) nofun,
          .answer hans, hno⟩
    | handle hp h hans =>
      exact ⟨_, vcardProcessApdu_handled hprocess nofun, .handle hi ha hp h hans, hno⟩
    | serial hans =>
      exact ⟨_, vcardProcessApdu_handled (hprocess.trans (toProcessed_self ha _ _ _)) nofun,
        .serial hans, hno⟩
    | windows hans =>
      exact ⟨_, vcardProcessApdu_handled (hprocess.trans (toProcessed_self ha _ _ _)) nofun,
        .windows hans, hno⟩
  · right
    refine ⟨vcardProcessApdu_error ?_, i, a, p, hi, ha, hp, hover⟩
    rw [hprocess, show (card.start apdu).statics = card.statics from rfl, hr]
    rfl

/-- The current applet's handler answered. -/
theorem vcardProcessApdu_of_run {i : ℕ} {a : VCardApplet} {p' : VCardAppletPrivate}
    {r : VCardResponse × Session τ} {st : Statics}
    (hi : card.currentApplet apdu.channel = some i) (ha : card.applets[i]? = some a)
    (h : a.processApdu.run emul card.statics a.appletPrivate (card.start apdu).toSession apdu
      = .ok (.answer p' r, st)) :
    vcardProcessApdu emul card apdu = .ok (.answer
      { card.start apdu with
        toSession := r.2
        applets := card.applets.set i { a with appletPrivate := some p' }
        statics := st } r.1) := by
  refine vcardProcessApdu_handled ?_ nofun
  rw [vcardProcessAppletApdu_some emul (card.start apdu) hi ha]
  rw [show (card.start apdu).statics = card.statics from rfl, h]
  rfl

/-- What CAC, Global Platform and Microsoft applets do not answer themselves. -/
theorem vcardProcessApdu_passedOn (hok : CardOk card) (h : apdu.PassedOn) :
    vcardProcessApdu emul card apdu = vcard7816VmProcessApdu emul (card.start apdu) apdu := by
  apply vcardProcessApdu_passed hok
  rcases hi : card.currentApplet apdu.channel with _ | i
  · exact vcardProcessAppletApdu_none hi
  obtain ⟨a, ha⟩ : ∃ a, card.applets[i]? = some a :=
    ⟨_, List.getElem?_eq_getElem (hok.current _ _ hi)⟩
  rw [vcardProcessAppletApdu_some emul (card.start apdu) hi ha,
    run_pass (hok.applets a (List.mem_of_getElem? ha)).1 h, ok_bind]
  change Except.ok (⟨.next, none, { card.start apdu with
    applets := card.applets.set i a }⟩ : Processed τ) = _
  rw [set_of_getElem? ha]
  rfl

theorem vcardProcessApdu_select (hok : CardOk card) {aid : Bytes} {i : ℕ} {a : VCardApplet}
    (hselects : apdu.Selects aid) (hi : vcardFindApplet card.applets aid = some i)
    (ha : card.applets[i]? = some a) :
    ∃ r s, vcardProcessApdu emul card apdu = .ok (.answer
        { card.start apdu with
          toSession := s
          applets := card.applets.set i a.clear
          currentApplet := Function.update card.currentApplet apdu.channel (some i) } r)
      ∧ respond (card.start apdu).toSession (fci aid) apdu.aLe Status.success = (r, s) := by
  obtain ⟨⟨hgen, hsm⟩, hins, hP1, -⟩ := id hselects
  have hpassed : apdu.PassedOn := .inr (.inr ⟨hins, by rw [hP1]; decide⟩)
  obtain ⟨r, s, hr, hans⟩ := vmSelectFile_found (hok.start) hselects hi ha
  refine ⟨r, s, ?_, hans⟩
  rw [vcardProcessApdu_passedOn hok hpassed, vcard7816VmProcessApdu, if_neg (not_not.2 hgen),
    if_neg (not_not.2 hsm)]
  simp only [hins]
  exact hr

end Command

section Kept

theorem Handling.appletOk {a : VCardApplet} {p p' : VCardAppletPrivate} {s s' : Session τ}
    (h : Handling emul apdu p s a.processApdu p' s') (hok : AppletOk a)
    (hp : a.appletPrivate = some p) : AppletOk { a with appletPrivate := some p' } := by
  cases hok with
  | pki hprops =>
    cases hp
    cases h <;> exact .pki ⟨hprops.1, hprops.2, hprops.3, hprops.4⟩ rfl
  | passthrough hprops hu =>
    cases hp
    cases h
    exact .passthrough ⟨hprops.1, hprops.2, hprops.3, hprops.4⟩ hu
  | commonRead | aca | gp | msft => cases h

theorem AppletOk.clear {a : VCardApplet} (hok : AppletOk a) : AppletOk a.clear := by
  cases hok with
  | commonRead h hu => exact .commonRead h hu
  | aca h hu hle => exact .aca h hu hle
  | gp => exact .gp
  | msft => exact .msft
  | passthrough h hu => exact .passthrough ⟨h.1, h.2, h.3, h.4⟩ hu
  | pki h hu =>
    simp only [VCardApplet.clear, hu]
    exact .pki ⟨h.1, h.2, h.3, h.4⟩ rfl

theorem CardOk.applets_set (hok : CardOk card) {i : ℕ} {a b : VCardApplet}
    (ha : card.applets[i]? = some a) (hb : AppletOk b) (haid : b.aid = a.aid) :
    ∀ x ∈ card.applets.set i b, AppletOk x ∧ x.aid.length ≤ 16 := by
  intro x hx
  rcases List.mem_or_eq_of_mem_set hx with hx | rfl
  · exact hok.applets x hx
  · exact ⟨hb, haid ▸ (hok.applets a (List.mem_of_getElem? ha)).2⟩

theorem CardStep.cardOk {r : Processed τ} (h : CardStep emul card apdu r) (hok : CardOk card) :
    CardOk r.card := by
  cases h with
  | answer | serial | windows | loginStatus | login | nextBytes =>
    exact ⟨hok.type, hok.applets, hok.current⟩
  | handle hi ha hp h hr =>
    refine ⟨hok.type, hok.applets_set ha
      (h.appletOk (hok.applets _ (List.mem_of_getElem? ha)).1 hp) rfl, fun channel j hj => ?_⟩
    exact (hok.current channel j hj).trans_eq (List.length_set ..).symm
  | deselect =>
    refine ⟨hok.type, hok.applets, fun channel j hj => ?_⟩
    simp only [Processed.withStatus, Processed.answer, Function.update_apply] at hj
    split_ifs at hj
    exact hok.current channel j hj
  | select _ _ ha _ =>
    refine ⟨hok.type, hok.applets_set ha (hok.applets _ (List.mem_of_getElem? ha)).1.clear rfl,
      fun channel j hj => ?_⟩
    simp only [Processed.answer, Function.update_apply, List.length_set] at hj ⊢
    split_ifs at hj
    · obtain rfl := Option.some.inj hj
      exact (List.getElem?_eq_some_iff.1 ha).1
    · exact hok.current channel j hj

/-- A command is answered. -/
structure Processed.Done (aLe : ℕ) (r : Processed τ) : Prop where
  status : r.status = .done
  response : ∃ response, r.response = some response ∧ response.Complete aLe

theorem CardStep.done {r : Processed τ} (h : CardStep emul card apdu r) : r.Done apdu.aLe := by
  cases h with
  | answer hr | handle _ _ _ _ hr | serial hr | windows hr | select _ _ _ hr | loginStatus _ hr
  | nextBytes _ hr => exact ⟨rfl, _, rfl, hr.complete⟩
  | deselect | login => exact ⟨rfl, _, rfl, complete_makeResponse _⟩

end Kept

end Libcacard
