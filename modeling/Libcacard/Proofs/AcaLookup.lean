import Libcacard.AcaLookup
import Libcacard.Proofs.AcaFormats
import Libcacard.VCard

/-!
# Looking up access rules by AID

The tables of the applets by AID and of the applets with their objects name the same applets but
for one, whose identifier is `4F` in the first and `F4` in the second.
-/

namespace Libcacard

open Machine

variable {τ : Type} {shared : ByteArr 5} {p : VCardAppletPrivate} {s : Session τ}
  {apdu : VCardAPDU} {pkiApplets : ℕ} {aid : Bytes}

/-- A payload sent with success is not an answer that nothing was found. -/
theorem respond_found (payload : Bytes) (Le : ℕ) :
    (respond s payload Le Status.success).1.bStatus ≠ Status.errorDataNotFound := by
  unfold respond
  split_ifs
  · intro h
    have hbytes : (bytesLeft payload.length).bStatus.toNat = 256 * 0x61 + _ :=
      toNat_ofStatusBytes 0x61 (if 255 < payload.length then 0 else UInt8.ofNat payload.length)
    have hlt := (if 255 < payload.length then 0 else UInt8.ofNat payload.length : UInt8).toNat_lt
    rw [h, show Status.errorDataNotFound.toNat = 27272 from rfl] at hbytes
    omega
  · exact show Status.success ≠ Status.errorDataNotFound by decide

section Commands

/-- P1 = 11 -/
theorem aca_asksApplet (hu : p.u = .acaData pkiApplets) (hlen : aid.length = 7)
    (h : apdu.AsksAcr 0x11 aid) : cacAppletAcaProcessApdu shared p s apdu
      = .ok (.answer p (if aidToAppletId serviceTable pkiApplets aid = 0
        then (vcardMakeResponse Status.errorDataNotFound, s)
        else respond s (serialise (cacAcaGetProperties
          ++ appletAcrsOf pkiApplets (aidToAppletId serviceTable pkiApplets aid))) apdu.aLe
          Status.success)) := by
  have hne : aid ≠ [] := by
    rintro rfl
    cases hlen
  have hanswer : cacAcaGetAppletAcrResponse s apdu.aLe pkiApplets (.aid aid) .simpleTlv = _ :=
    cacAcaGetAppletAcrResponse_aid pkiApplets hne
  simp only [cacAppletAcaProcessApdu, hu, acaData, ok_bind, h.aIns, h.aP1, h.aP2, h.aLc, hlen,
    h.body_eq]
  change (cacAcaGetAppletAcrResponse s apdu.aLe pkiApplets (.aid aid) .simpleTlv >>= fun r =>
    .ok (⟨.done, r.1, some p, r.2⟩ : Handled τ)) = _
  rw [hanswer, ok_bind]
  split_ifs <;> rfl

/-- P1 = 10 -/
theorem aca_sends_all (hpki : pkiApplets ≤ 10) :
    AcaSends pkiApplets 0x10 [] (appletAcrMembers pkiApplets) := by
  intro τ shared p s apdu hu h
  simp only [cacAppletAcaProcessApdu, hu, acaData, ok_bind, h.aIns, h.aP1, h.aP2, h.aLc]
  change (cacAcaGetAppletAcrResponse s apdu.aLe pkiApplets .all .simpleTlv >>= fun r =>
    .ok (⟨.done, r.1, some p, r.2⟩ : Handled τ)) = _
  rw [cacAcaGetAppletAcrResponse_all hpki, ok_bind]
  rfl

end Commands

section Tables

/-- The AID whose applet the tables give two identifiers. -/
def aidDb00 : Bytes := [0xa0, 0x00, 0x00, 0x01, 0x16, 0xdb, 0x00]

theorem find?_of_mem {α β : Type} [DecidableEq β] {f : α → β} {xs : List α} {x : α}
    (hnodup : (xs.map f).Nodup) (hx : x ∈ xs) : (xs.find? fun y => f y = f x) = some x := by
  obtain ⟨y, hy⟩ := Option.isSome_iff_exists.1
    ((List.find?_isSome (p := fun y => decide (f y = f x))).2 ⟨x, hx, by simp⟩)
  have heq : f y = f x := of_decide_eq_true (List.find?_some (p := fun y => decide (f y = f x)) hy)
  rw [hy, List.inj_on_of_nodup_map hnodup (List.mem_of_find?_eq_some hy) hx heq]

theorem mem_of_mem_listed {e : AidEntry} (hpki : pkiApplets ≤ 10)
    (he : e ∈ serviceTable.listed pkiApplets) : e ∈ serviceTable.entries :=
  active_subset (active_eq_listed hpki ▸ he)

/-- An AID is looked up as the entry that has it. -/
theorem aidToAppletId_of_mem (hpki : pkiApplets ≤ 10) {e : AidEntry}
    (he : e ∈ serviceTable.listed pkiApplets) :
    aidToAppletId serviceTable pkiApplets e.aid = e.id := by
  have haids : (serviceTable.entries.map AidEntry.aid).Nodup := by decide
  rw [← active_eq_listed hpki] at he
  rw [aidToAppletId, find?_of_mem (((active_sublist _ _).map AidEntry.aid).nodup haids) he]

theorem id_ne_zero {e : AidEntry} (he : e ∈ serviceTable.entries) : e.id ≠ 0 :=
  (show ∀ e ∈ serviceTable.entries, e.id ≠ 0 by decide) e he

theorem aidToAppletId_eq_zero (hpki : pkiApplets ≤ 10) :
    aidToAppletId serviceTable pkiApplets aid = 0
      ↔ ∀ e ∈ serviceTable.listed pkiApplets, e.aid ≠ aid := by
  constructor
  · rintro h0 e he rfl
    rw [aidToAppletId_of_mem hpki he] at h0
    exact id_ne_zero (mem_of_mem_listed hpki he) h0
  · intro hnone
    have hfind : ((serviceTable.listed pkiApplets).find? fun e => e.aid = aid) = none :=
      List.find?_eq_none.2 fun e he => by simpa using hnone e he
    rw [aidToAppletId, active_eq_listed hpki, hfind]

/-- All applets by AID but one are in the table with their objects. -/
theorem exists_acr (hpki : pkiApplets ≤ 10) {e : AidEntry}
    (he : e ∈ serviceTable.listed pkiApplets) (hdb : e.aid ≠ aidDb00) :
    ∃ acr, appletAcrsOf pkiApplets e.id = [acr] := by
  have hone : ∀ n ≤ 10, ∀ e ∈ serviceTable.listed n, e.aid ≠ aidDb00 →
      ((appletsTable.listed n).filter fun a => a.id = e.id).length = 1 := by decide +kernel
  rw [appletAcrsOf, active_eq_listed hpki]
  obtain ⟨a, ha⟩ := List.length_eq_one_iff.1 (hone _ hpki e he hdb)
  exact ⟨_, by rw [ha]; rfl⟩

theorem appletAcrsOf_db00 (hpki : pkiApplets ≤ 10) : appletAcrsOf pkiApplets 0x4f = [] := by
  have hnone : ∀ n ≤ 10, ((appletsTable.listed n).filter fun a => a.id = 0x4f) = [] := by
    decide +kernel
  rw [appletAcrsOf, active_eq_listed hpki, hnone _ hpki]
  rfl

/-- The record of an applet in the answer with all applets. -/
theorem filter_appletAcrMembers (id : UInt8) :
    ((appletAcrMembers pkiApplets).filter fun m => m.acrAppletId = some id)
      = appletAcrsOf pkiApplets id := by
  have hcount : (SimpletlvMember.leaf Tag.acrNumApplets
      [UInt8.ofNat (appletsTable.numStatic + pkiApplets)]).acrAppletId = none := rfl
  have hacr : ∀ a : AcrApplet, (SimpletlvMember.leaf Tag.acrAppletAcr
      (acrAppletBytes a)).acrAppletId = some a.id := fun _ => rfl
  rw [appletAcrMembers, List.filter_cons, hcount, if_neg (by simp), appletAcrsOf, List.filter_map]
  simp only [Function.comp_def, hacr, Option.some.injEq]

theorem filter_appletAcrsOf (id : UInt8) :
    (appletAcrsOf pkiApplets id).filter SimpletlvMember.isAppletAcr
      = appletAcrsOf pkiApplets id := by
  refine List.filter_eq_self.2 fun m hm => ?_
  obtain ⟨a, rfl⟩ := mem_appletAcrsOf hm
  rfl

end Tables

section Lookups

/-- GET ACR for the applet with that AID. -/
def askDb00 : VCardAPDU :=
  ⟨[0x80, 0x4c, 0x11, 0x00, 0x07] ++ aidDb00, ⟨7, 0, some 5⟩, by decide, by decide⟩

def acaPrivate (pkiApplets : ℕ) : VCardAppletPrivate :=
  ⟨none, none, .cccLink, 0, 0, [], .acaData pkiApplets⟩

def newSession : Session Unit := (vcardNew () Statics.initial).toSession

theorem calls_respond (payload : Bytes) (Le : ℕ) (status : UInt16) :
    (respond s payload Le status).2.calls = s.calls ++ [.response payload Le] := by
  unfold respond
  split_ifs <;> rfl

theorem mem_listed_db00 :
    (⟨0x4f, aidDb00, by decide⟩ : AidEntry) ∈ serviceTable.listed pkiApplets :=
  List.mem_append_right _ (by decide)

/-- Nothing follows the applet's information in the answer for the AID that is given two
identifiers. -/
theorem acaSends_db00 (hpki : pkiApplets ≤ 10) : AcaSends pkiApplets 0x11 aidDb00 [] := by
  intro τ shared p s apdu hu hasks
  have hid := aidToAppletId_of_mem hpki mem_listed_db00
  rw [aca_asksApplet hu rfl hasks, hid, if_neg (by decide), appletAcrsOf_db00 hpki]

theorem aidLookup_db00 (hpki : pkiApplets ≤ 10) : ¬ AidLookupAgrees pkiApplets aidDb00 := by
  intro h
  obtain ⟨ms, all, acr, hsends, -, hms, -⟩ := h.found _ mem_listed_db00 rfl
  have hu : (acaPrivate pkiApplets).u = .acaData pkiApplets := rfl
  have hasks : askDb00.AsksAcr 0x11 aidDb00 := ⟨rfl, rfl, rfl, rfl, rfl⟩
  have hanswer := (hsends Unit Statics.initial.cccBufferProperties _ newSession _ hu hasks).symm.trans
    (acaSends_db00 hpki _ _ _ _ _ hu hasks)
  have hcalls := congrArg Session.calls
    (congrArg Handled.session (Except.ok.inj hanswer))
  simp only [Handled.answer, calls_respond, List.append_cancel_left_eq, List.cons.injEq,
    Call.response.injEq, and_true] at hcalls
  have hnil : serialise ms = [] := List.append_cancel_left hcalls
  obtain ⟨hmem, hacr⟩ := List.mem_filter.1
    (show acr ∈ ms.filter SimpletlvMember.isAppletAcr from hms ▸ List.mem_singleton_self acr)
  have hnone := isNone_of_length_serialise (congrArg List.length hnil) acr hmem
  cases acr with
  | none | compound => cases hacr
  | leaf => cases hnone

/-- Every other AID is found where the tables have it. -/
theorem aidLookup_agrees_iff (hpki : pkiApplets ≤ 10) (hlen : aid.length = 7) :
    AidLookupAgrees pkiApplets aid ↔ aid ≠ [0xa0, 0x00, 0x00, 0x01, 0x16, 0xdb, 0x00] := by
  constructor
  · rintro h rfl
    exact aidLookup_db00 hpki h
  · intro hdb
    refine ⟨fun τ shared p s apdu hu hasks => ?_, fun e he haid => ?_⟩
    · have hanswer := @aca_asksApplet _ shared _ s _ _ _ hu hlen hasks
      rw [← aidToAppletId_eq_zero hpki]
      by_cases h0 : aidToAppletId serviceTable pkiApplets aid = 0
      · rw [if_pos h0] at hanswer
        exact ⟨_, _, hanswer, iff_of_true rfl h0⟩
      · rw [if_neg h0] at hanswer
        exact ⟨_, _, hanswer, iff_of_false (respond_found _ _) h0⟩
    · subst haid
      have hid := aidToAppletId_of_mem hpki he
      obtain ⟨acr, hacr⟩ := exists_acr hpki he hdb
      refine ⟨_, _, acr, fun τ shared p s apdu hu hasks => ?_, aca_sends_all hpki,
        (filter_appletAcrsOf e.id).trans hacr, (filter_appletAcrMembers e.id).trans hacr⟩
      rw [aca_asksApplet hu hlen hasks, hid, if_neg (id_ne_zero (mem_of_mem_listed hpki he))]

theorem aidLookup_agrees_iff_personInstance :
    AidLookupAgrees 3 [0xa0, 0x00, 0x00, 0x00, 0x79, 0x02, 0x00] :=
  (aidLookup_agrees_iff (by decide) (by decide)).2 (by decide)

/-- The applet `4F` is listed with the AID `A0 00 00 01 16 DB 00`, which is answered by the
applet's information alone. -/
theorem aidLookup_disagrees :
    (∃ e ∈ serviceTable.listed 0, e.id = 0x4f ∧ e.aid = aidDb00)
      ∧ AcaSends 0 0x11 aidDb00 [] ∧ ¬ AidLookupAgrees 0 aidDb00 :=
  ⟨⟨_, mem_listed_db00, rfl, rfl⟩, acaSends_db00 (by decide), aidLookup_db00 (by decide)⟩

end Lookups

end Libcacard
