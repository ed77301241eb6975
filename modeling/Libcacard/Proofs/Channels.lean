import Libcacard.Channels
import Libcacard.Proofs.EveryCommand
import Libcacard.Proofs.Made

/-!
# Logical channels are independent

The decoded channel is right on every class byte, but the higher of its bits is also taken for a
secure messaging bit. So an applet can be selected on channels 0 and 1, and stays there, and on
channels 2 and 3 every SELECT is refused.
-/

namespace Libcacard

open Machine

variable {τ : Type} {emul : Emul τ} {card card' : VCard τ} {apdu : VCardAPDU} {c : Fin maxChannel}
  {i : ℕ} {aid : Bytes}

/-- What is decoded from a class byte without secure messaging. -/
theorem vcardApduSetClass_plain {cla : UInt8}
    (htype : cla &&& 0xf0 ∈ [0x00, 0x80, 0x90, (0xa0 : UInt8)]) (hplain : cla &&& 0x0c = 0x00) :
    (vcardApduSetClass cla).aGenType = .iso
      ∧ (vcardApduSetClass cla).aChannel = (cla &&& 0x03).toNat
      ∧ ((vcardApduSetClass cla).aSecureMessaging = 0 ↔ (cla &&& 0x03).toNat < 2) := by
  have h : ∀ n : Fin 256, UInt8.ofNat n &&& 0xf0 ∈ [0x00, 0x80, 0x90, (0xa0 : UInt8)] →
      UInt8.ofNat n &&& 0x0c = 0x00 →
      (vcardApduSetClass (UInt8.ofNat n)).aGenType = .iso
        ∧ (vcardApduSetClass (UInt8.ofNat n)).aChannel = (UInt8.ofNat n &&& 0x03).toNat
        ∧ ((vcardApduSetClass (UInt8.ofNat n)).aSecureMessaging = 0
          ↔ (UInt8.ofNat n &&& 0x03).toNat < 2) := by decide +kernel
  have hcla := h ⟨cla.toNat, cla.toNat_lt⟩
  rw [UInt8.ofNat_toNat] at hcla
  exact hcla htype hplain

namespace VCardAPDU.SelectsOn

theorem genType_eq (h : apdu.SelectsOn c aid) : apdu.aGenType = .iso :=
  (vcardApduSetClass_plain h.type h.plain).1

theorem channel_eq (h : apdu.SelectsOn c aid) : apdu.channel = c :=
  Fin.ext ((vcardApduSetClass_plain h.type h.plain).2.1.trans h.channel)

theorem secureMessaging_iff (h : apdu.SelectsOn c aid) :
    apdu.aSecureMessaging = 0 ↔ (c : ℕ) < 2 := by
  rw [← h.channel]
  exact (vcardApduSetClass_plain h.type h.plain).2.2

theorem selects (h : apdu.SelectsOn c aid) (hc : (c : ℕ) < 2) : apdu.Selects aid :=
  ⟨⟨h.genType_eq, h.secureMessaging_iff.2 hc⟩, h.ins, h.p1, h.body⟩

end VCardAPDU.SelectsOn

section Step

theorem CardStep.current_at {r : Processed τ} (h : CardStep emul card apdu r)
    (hleaves : CardOp.LeavesChannel c (.apdu apdu)) :
    r.card.currentApplet c = card.currentApplet c := by
  have hne : ∀ aid, apdu.Selects aid → c ≠ apdu.channel := by
    rintro aid hselects rfl
    exact hleaves ⟨⟨aid, hselects⟩, rfl⟩
  cases h with
  | answer | handle | serial | windows | loginStatus | login | nextBytes => rfl
  | deselect hselects => exact Function.update_of_ne (hne _ hselects) _ _
  | select hselects => exact Function.update_of_ne (hne _ hselects) _ _

/-- A channel keeps its applet over a run that leaves it alone. -/
theorem run_current_at {ops : List CardOp} {replies : List (Option CardReply)} (hok : CardOk card)
    (hi : card.currentApplet c = some i)
    (haid : (card.applets.map VCardApplet.aid)[i]? = some aid)
    (halong : Along (cardStep emul) (fun _ op => op.LeavesChannel c) card ops)
    (hrun : run (cardStep emul) card ops = .ok (replies, card')) :
    CardOk card' ∧ card'.currentApplet c = some i
      ∧ (card'.applets.map VCardApplet.aid)[i]? = some aid := by
  refine run_invariant (I := fun card => CardOk card ∧ card.currentApplet c = some i
    ∧ (card.applets.map VCardApplet.aid)[i]? = some aid)
    (fun card op reply card' hinv hop hstep => ?_) ⟨hok, hi, haid⟩ halong hrun
  refine ⟨cardStep_cardOk hinv.1 hstep, ?_, by rw [cardStep_aids hinv.1 hstep]; exact hinv.2.2⟩
  rcases cardStep_eq_ok hinv.1 hstep with ⟨apdu, r, rfl, -, h, rfl, rfl⟩ | ⟨power, rfl, -, -⟩
  · exact (h.current_at hop).trans hinv.2.1
  · exact hop.elim

theorem keepsChannel_of_current (hok : CardOk card) (hi : card.currentApplet c = some i)
    (haid : (card.applets.map VCardApplet.aid)[i]? = some aid) : KeepsChannel emul card c i aid := by
  rintro ops replies card' apdu halong hrun rfl
  obtain ⟨-, hi', haid'⟩ := run_current_at hok hi haid halong hrun
  rw [List.getElem?_map, Option.map_eq_some_iff] at haid'
  obtain ⟨a, ha, haid'⟩ := haid'
  exact ⟨hi', a, ha, haid', vcardProcessAppletApdu_some emul (card'.start apdu) hi' ha⟩

end Step

section Select

/-- On the channels with the higher bit the command is refused. -/
theorem not_selectsChannel (hok : CardOk card) (h : apdu.SelectsOn c aid) (hc : ¬ (c : ℕ) < 2) :
    ¬ SelectsChannel emul card c i aid apdu := by
  rintro ⟨r, hr, -, -, hans, -⟩
  have hpassed : apdu.PassedOn := .inr (.inr ⟨h.ins, by rw [h.p1]; decide⟩)
  rw [vcardProcessApdu_passedOn hok hpassed, vcard7816VmProcessApdu,
    if_neg (not_not.2 h.genType_eq), if_pos (mt h.secureMessaging_iff.1 hc)] at hr
  obtain rfl := Except.ok.inj hr
  unfold Processed.Answers at hans
  split_ifs at hans with hlen
  · have hsw := congrArg VCardResponse.bSw1 (Option.some.inj hans.1)
    exact absurd hsw (show (0x68 : UInt8) ≠ 0x61 by decide)
  · have hsw := congrArg VCardResponse.bSw1 (Option.some.inj hans)
    exact absurd hsw (show (0x68 : UInt8) ≠ 0x90 by decide)

/-- SELECT by AID makes an installed applet the current one of its channel, and of no other, for
as long as the channel is left alone, if and only if the channel is 0 or 1. -/
theorem selectsChannel_iff {digest : Bytes → Option Bytes} {a : VCardApplet}
    (hreach : Reachable emul digest card) (ha : card.applets[i]? = some a)
    (h : apdu.SelectsOn c a.aid) : SelectsChannel emul card c i a.aid apdu ↔ (c : ℕ) < 2 := by
  have hok := hreach.cardOk
  refine ⟨fun hsel => by_contra fun hc => not_selectsChannel hok h hc hsel, fun hc => ?_⟩
  obtain ⟨r, s, hr, hans⟩ := vcardProcessApdu_select hok (h.selects hc) (hreach.find ha) ha
  have hcurrent : Function.update card.currentApplet apdu.channel (some i) c = some i := by
    rw [h.channel_eq, Function.update_self]
  refine ⟨_, hr, rfl, hcurrent, ?_, fun d hd => ?_, ?_⟩
  · unfold Processed.Answers
    unfold respond at hans
    split_ifs at hans ⊢ with hlen
    · obtain ⟨rfl, rfl⟩ := Prod.mk.inj hans
      exact ⟨rfl, rfl⟩
    · obtain ⟨rfl, rfl⟩ := Prod.mk.inj hans
      rfl
  · rw [← h.channel_eq] at hd
    exact Function.update_of_ne hd _ _
  · refine keepsChannel_of_current (cardStep_cardOk hok (cardStep_apdu hr)) hcurrent ?_
    rw [cardStep_aids hok (cardStep_apdu hr), List.getElem?_map, ha]
    rfl

theorem selectsChannel_iff_zero : ∃ card,
    vcardEmulMakeCard (Emul.plain none nofun) (fun _ => none) () .initial [] = .ok (.done, card)
      ∧ (SelectsChannel (Emul.plain none nofun) card ⟨0, by decide⟩ 8 cacPersonInstanceAid
        selectPersonInstance ↔ 0 < 2) := by
  obtain ⟨card, p, label, r, hmade, -, -, ha, -⟩ := exists_selected (Emul.plain none nofun)
    (by decide +kernel)
  have h : selectPersonInstance.SelectsOn ⟨0, by decide⟩ cacPersonInstanceAid :=
    ⟨by decide, by decide, by decide, rfl, rfl, by decide⟩
  exact ⟨card, hmade, selectsChannel_iff (.made hmade) ha h⟩

/-- SELECT of the Person Instance container on channel 2. -/
def selectOnChannelTwo : VCardAPDU :=
  ⟨[0x02, 0xa4, 0x04, 0x00, 0x07, 0xa0, 0x00, 0x00, 0x00, 0x79, 0x02, 0x00], ⟨7, 0, some 5⟩,
    by decide, by decide⟩

theorem channelTwo_refused : ∃ card a,
    vcardEmulMakeCard (Emul.plain none nofun) (fun _ => none) () .initial [] = .ok (.done, card)
      ∧ card.applets[8]? = some a ∧ selectOnChannelTwo.SelectsOn ⟨2, by decide⟩ a.aid
      ∧ ¬ SelectsChannel (Emul.plain none nofun) card ⟨2, by decide⟩ 8 a.aid
        selectOnChannelTwo := by
  obtain ⟨card, p, label, r, hmade, -, -, ha, -⟩ := exists_selected (Emul.plain none nofun)
    (by decide +kernel)
  have h : selectOnChannelTwo.SelectsOn ⟨2, by decide⟩ cacPersonInstanceAid :=
    ⟨by decide, by decide, by decide, rfl, rfl, by decide⟩
  exact ⟨card, _, hmade, ha, h,
    not_selectsChannel (vcardEmulMakeCard_fresh hmade).cardOk h (by decide)⟩

end Select

end Libcacard
