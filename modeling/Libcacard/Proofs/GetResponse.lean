import Libcacard.Proofs.EveryCommand
import Libcacard.Proofs.Frame

/-!
# The pending response

A payload a command did not ask for whole becomes the pending response, GET RESPONSE commands
deliver it part by part, and any other command drops it.
-/

namespace Libcacard

open Machine

variable {τ : Type} {emul : Emul τ} {card : VCard τ} {apdu : VCardAPDU} {r : Processed τ}

section Source

/-- No response was built yet. -/
def NoResponse (calls : List Call) : Prop := ∀ p Le, Call.response p Le ∉ calls

/-- A command was answered, and its payload delivered or kept. -/
def Kept (response : VCardResponse) (bufferResponse : Option VCardBufferResponse)
    (calls : List Call) : Prop :=
  (∃ p Le, Le < p.length ∧ response = bytesLeft p.length ∧ bufferResponse = some (.ofBytes p)
      ∧ .response p Le ∈ calls ∧ ∀ q Le', .response q Le' ∈ calls → q = p)
    ∨ (bufferResponse = none ∧ ∀ p Le, .response p Le ∈ calls → p.length ≤ Le)

theorem Answered.kept {s s' : Session τ} {aLe : ℕ} {response : VCardResponse}
    (h : Answered s aLe (response, s')) (hcalls : NoResponse s.calls)
    (hbuffer : s.bufferResponse = none) : Kept response s'.bufferResponse s'.calls := by
  rcases h.pending hcalls with ⟨p, hLe, hr, hb, hc⟩ | ⟨hb, hc⟩
  · refine .inl ⟨p, aLe, hLe, hr, hb, ?_, fun q Le' hq => ?_⟩
    · rw [hc]
      simp
    · rw [hc] at hq
      rcases List.mem_append.1 hq with hq | hq
      · exact absurd hq (hcalls q Le')
      · simp only [List.mem_singleton, Call.response.injEq] at hq
        exact hq.1
  · refine .inr ⟨hb.trans hbuffer, fun p Le hp => ?_⟩
    obtain ⟨rfl, hle⟩ := hc p Le hp
    exact hle

theorem Handling.noResponse {p p' : VCardAppletPrivate} {s s' : Session τ}
    {process : VCardProcessAPDU} (h : Handling emul apdu p s process p' s')
    (hcalls : NoResponse s.calls) :
    NoResponse s'.calls ∧ s'.bufferResponse = s.bufferResponse := by
  cases h with
  | collect | drop => exact ⟨hcalls, rfl⟩
  | operate | fetch =>
    refine ⟨fun q Le hq => ?_, rfl⟩
    rcases List.mem_append.1 hq with hq | hq
    · exact hcalls q Le hq
    · cases List.mem_singleton.1 hq

theorem CardStep.kept (h : CardStep emul card apdu r) (hcalls : card.calls = [])
    (hbuffer : card.bufferResponse = none) (hins : apdu.aIns ≠ Ins.getResponse) :
    ∃ response, r.response = some response
      ∧ Kept response r.card.bufferResponse r.card.calls := by
  have hno : NoResponse card.calls := by
    rw [hcalls]
    exact fun _ _ h => nomatch h
  cases h with
  | answer hr | serial hr | windows hr | select _ _ _ hr | loginStatus _ hr =>
    exact ⟨_, rfl, hr.kept hno hbuffer⟩
  | handle _ _ _ h hr =>
    obtain ⟨hno', hb⟩ := h.noResponse hno
    exact ⟨_, rfl, hr.kept hno' (hb.trans hbuffer)⟩
  | deselect => exact ⟨_, rfl, .inr ⟨hbuffer, fun p Le hp => absurd hp (hno p Le)⟩⟩
  | login =>
    refine ⟨_, rfl, .inr ⟨hbuffer, fun p Le hp => ?_⟩⟩
    rcases List.mem_append.1 hp with hp | hp
    · exact absurd hp (hno p Le)
    · cases List.mem_singleton.1 hp
  | nextBytes hins' => exact absurd hins' hins

/-- Any command but GET RESPONSE keeps its own payload or nothing. -/
theorem vcardProcessApdu_kept (hok : CardOk card) (hins : apdu.aIns ≠ Ins.getResponse)
    (hr : vcardProcessApdu emul card apdu = .ok r) :
    r.status = .done ∧ ∃ response, r.response = some response
      ∧ Kept response r.card.bufferResponse r.card.calls := by
  rcases vcardProcessApdu_step hok with ⟨r', hr', h, -⟩ | ⟨he, -⟩
  · obtain rfl := Except.ok.inj (hr.symm.trans hr')
    exact ⟨h.done.status, h.kept rfl (if_neg hins) hins⟩
  · rw [he] at hr
    cases hr

end Source

section Delivery

theorem VCard.SameApplets.trans {card₁ card₂ card₃ : VCard τ} (h : card₁.SameApplets card₂)
    (h' : card₂.SameApplets card₃) : card₁.SameApplets card₃ :=
  ⟨h'.1.trans h.1, h'.2.trans h.2⟩

/-- One GET RESPONSE. -/
theorem vcardProcessApdu_getResponse (hok : CardOk card) (h : apdu.GetsResponse) :
    ∃ response r, vcardProcessApdu emul card apdu = .ok r ∧ r.status = .done
      ∧ r.response = some response ∧ CardOk r.card ∧ card.SameApplets r.card
      ∧ ∀ Les, getResponses card.pending (apdu.aLe :: Les)
        = response :: getResponses r.card.pending Les := by
  obtain ⟨⟨hgen, hsm⟩, hins⟩ := h
  have hiso : vcardProcessApdu emul card apdu = vmGetResponse (card.start apdu) apdu := by
    rw [vcardProcessApdu_passedOn hok (.inl hins), vcard7816VmProcessApdu, if_neg (not_not.2 hgen),
      if_neg (not_not.2 hsm)]
    simp only [hins]
    rfl
  have hpending : (card.start apdu).bufferResponse = card.bufferResponse := if_pos hins
  rcases hb : card.bufferResponse with _ | b
  · refine ⟨_, _, by rw [hiso, vmGetResponse, hpending, hb], rfl, rfl, hok.start, ⟨rfl, rfl⟩,
      fun Les => ?_⟩
    have hnone : (card.start apdu).pending = none := by rw [VCard.pending, hpending, hb]; rfl
    rw [VCard.pending, hb]
    change _ = _ :: getResponses (card.start apdu).pending Les
    rw [hnone]
    rfl
  · have hsome := vmGetResponse_some apdu (hpending.trans hb)
    refine ⟨_, _, hiso.trans hsome, rfl, rfl, ⟨hok.type, hok.applets, hok.current⟩,
      ⟨rfl, rfl⟩, fun Les => ?_⟩
    have hlen := b.length_remaining
    rw [VCard.pending, hb, Option.map_some, getResponses, hlen]
    congr 2
    split_ifs with hle
    · simp only [VCard.pending, Processed.answer, Option.map_none]
    · simp only [VCard.pending, Processed.answer, Option.map_some,
        VCardBufferResponse.remaining_advance, Nat.min_eq_right (Nat.le_of_not_le hle)]

/-- Any number of them. -/
theorem run_getResponses (emul : Emul τ) : ∀ {gs : List VCardAPDU} {card : VCard τ}, CardOk card →
    (∀ g ∈ gs, g.GetsResponse) →
    ∃ card', run (cardStep emul) card (gs.map .apdu)
        = .ok ((getResponses card.pending (gs.map VCardAPDU.aLe)).map
          (fun response => some ⟨.done, some response⟩), card') ∧ CardOk card'
        ∧ card.SameApplets card'
  | [], card, hok, _ => ⟨card, rfl, hok, rfl, rfl⟩
  | g :: gs, card, hok, hgs => by
    obtain ⟨hg, hrest⟩ := List.forall_mem_cons.1 hgs
    obtain ⟨response, r, hr, hdone, hresp, hok', hsame, heq⟩ :=
      vcardProcessApdu_getResponse hok hg
    obtain ⟨card', hrun, hok'', hsame'⟩ := run_getResponses emul hok' hrest
    refine ⟨card', ?_, hok'', hsame.trans hsame'⟩
    rw [List.map_cons, List.map_cons, heq, List.map_cons]
    refine run_cons_eq_ok.2 ⟨_, _, _, cardStep_apdu hr, hrun, ?_⟩
    rw [hdone, hresp]

theorem data_dataResponse (payload : Bytes) (status : UInt16) :
    (dataResponse payload status).data = payload := List.take_left

/-- The data of the answers are the payload up to what was asked for. -/
theorem data_getResponses : ∀ (pending : Option Bytes) (Les : List ℕ),
    (getResponses pending Les).flatMap VCardResponse.data = (pending.getD []).take Les.sum
  | pending, [] => by cases pending <;> simp [getResponses]
  | none, Le :: Les => by
    have hdata : (vcardMakeResponse Status.errorDataNotFound).data = [] := by decide
    rw [getResponses, List.flatMap_cons, data_getResponses none Les, hdata, Option.getD_none,
      List.take_nil, List.take_nil, List.append_nil]
  | some rest, Le :: Les => by
    rw [getResponses, List.flatMap_cons, data_dataResponse, data_getResponses _ Les,
      List.sum_cons, Option.getD_some]
    split_ifs with hle
    · rw [Option.getD_none, List.take_nil, List.append_nil, List.take_of_length_le hle,
        List.take_of_length_le (Nat.le_trans hle (Nat.le_add_right ..))]
    · rw [Option.getD_some, ← List.take_add]

/-- A payload of more bytes than a command asked for is announced, delivered in the parts the
following GET RESPONSE commands ask for, and dropped by any other command. -/
theorem getResponse_delivers {digest : Bytes → Option Bytes} {p : Bytes} {Le : ℕ}
    {gs : List VCardAPDU} (hreach : Reachable emul digest card)
    (hins : apdu.aIns ≠ Ins.getResponse) (hr : vcardProcessApdu emul card apdu = .ok r)
    (hcall : .response p Le ∈ r.card.calls) (hLe : Le < p.length)
    (hgs : ∀ g ∈ gs, g.GetsResponse) :
    r.status = .done ∧ r.response = some (bytesLeft p.length)
      ∧ (getResponses (some p) (gs.map VCardAPDU.aLe)).flatMap VCardResponse.data
        = p.take (gs.map VCardAPDU.aLe).sum
      ∧ ∃ card', run (cardStep emul) r.card (gs.map .apdu)
          = .ok ((getResponses (some p) (gs.map VCardAPDU.aLe)).map
            (fun response => some ⟨.done, some response⟩), card')
        ∧ ∀ other r', other.aIns ≠ Ins.getResponse →
          vcardProcessApdu emul card' other = .ok r' →
          ∃ response, r'.response = some response
            ∧ Kept response r'.card.bufferResponse r'.card.calls := by
  have hok := hreach.cardOk
  obtain ⟨hdone, response, hresp, hkept⟩ := vcardProcessApdu_kept hok hins hr
  rcases hkept with ⟨q, Le', -, rfl, hb, -, hq⟩ | ⟨-, hle⟩
  · obtain rfl := hq p Le hcall
    have hpending : r.card.pending = some p := by rw [VCard.pending, hb]; rfl
    obtain ⟨card', hrun, hok', -⟩ := run_getResponses emul
      (cardStep_cardOk hok (cardStep_apdu hr)) hgs
    rw [hpending] at hrun
    exact ⟨hdone, hresp, data_getResponses (some p) _, card', hrun,
      fun other r' hother hr' => (vcardProcessApdu_kept hok' hother hr').2⟩
  · exact absurd (hle p Le hcall) (Nat.not_le.2 hLe)

/-- GET RESPONSE for five bytes on channel 0. -/
def getFiveBytes : VCardAPDU := ⟨[0x00, 0xc0, 0x00, 0x00, 0x05], ⟨0, 5, none⟩, by decide, by decide⟩

/-- A command is processed and keeps 13 bytes it was not asked for. -/
def keepsThirteen (emul : Emul τ) (apdu : VCardAPDU) (card : VCard τ) : Bool :=
  match vcardProcessApdu emul card apdu with
  | .ok r => r.card.calls.any fun c =>
    match c with
    | .response p Le => Le = 0 ∧ p.length = 13
    | _ => false
  | .error _ => false

theorem exists_of_keepsThirteen (h : keepsThirteen emul apdu card) :
    ∃ r p, vcardProcessApdu emul card apdu = .ok r ∧ .response p 0 ∈ r.card.calls
      ∧ p.length = 13 := by
  unfold keepsThirteen at h
  split at h
  · rename_i r hr
    obtain ⟨c, hc, h⟩ := List.any_eq_true.1 h
    split at h
    · simp only [Bool.decide_and, Bool.and_eq_true, decide_eq_true_eq] at h
      obtain ⟨rfl, hlen⟩ := h
      exact ⟨r, _, hr, hc, hlen⟩
    · simp at h
  · simp at h

theorem getResponse_delivers_five : ∃ card r p,
    vcardEmulMakeCard (Emul.plain none nofun) (fun _ => none) () .initial [] = .ok (.done, card)
      ∧ vcardProcessApdu (Emul.plain none nofun) card selectPersonInstance = .ok r
      ∧ p.length = 13 ∧ r.response = some (bytesLeft 13)
      ∧ (getResponses (some p) [5, 5, 5, 5]).flatMap VCardResponse.data = p.take 20 := by
  obtain ⟨card, hmade, hcheck⟩ := exists_of_madeWith (show madeWith
    (keepsThirteen (Emul.plain none nofun) selectPersonInstance)
    (vcardEmulMakeCard (Emul.plain none nofun) (fun _ => none) () .initial []) by decide +kernel)
  obtain ⟨r, p, hr, hcall, hlen⟩ := exists_of_keepsThirteen hcheck
  obtain ⟨-, hresp, hdata, -⟩ := getResponse_delivers (.made hmade) (by decide) hr hcall
    (by omega) (show ∀ g ∈ List.replicate 4 getFiveBytes, g.GetsResponse by decide)
  rw [hlen] at hresp
  exact ⟨card, r, p, hmade, hr, hlen, hresp, hdata⟩

end Delivery

end Libcacard
