import Libcacard.CardRun
import Libcacard.Proofs.Process

/-!
# A card that was made

Every applet has the data its handler works on, and is as its selection would leave it. So the
invariant holds of every card a program can get to.
-/

namespace Libcacard

open Machine

variable {τ : Type} {emul : Emul τ} {card : VCard τ}

/-- An applet that was just created. -/
structure Fresh (a : VCardApplet) : Prop where
  ok : AppletOk a
  aid : a.aid.length ≤ 16
  clear : a.clear = a

theorem short_compound {tag : UInt8} {cs : List SimpletlvMember} (ht : TagOk tag)
    (henc : Encodable cs) (hlen : (serialise cs).length ≤ 252) : Short (.compound tag cs) := by
  refine ⟨⟨⟨⟨ht, by omega⟩, henc⟩, trivial⟩, ?_⟩
  rw [record, List.length_append, length_header]
  split_ifs <;> omega

/-- Properties an applet has of its own. -/
theorem propertiesOk_own {p : VCardAppletPrivate} {tlv : List SimpletlvMember}
    (h : p.properties = .own tlv) (hlen : p.propertiesLen ≤ tlv.length)
    (hlong : p.longPropertiesLen ≤ tlv.length) (hlt : tlv.length < 2 ^ 16)
    (hshort : ∀ m ∈ tlv, Short m) : PropertiesOk p :=
  ⟨fun _ => h ▸ hlen, fun _ => h ▸ hlong, fun _ => h ▸ hlt, fun _ => h ▸ hshort⟩

section Copies

mutual

/-- A copy is the list itself. -/
theorem simpletlvCloneMember_eq : ∀ {m c : SimpletlvMember}, simpletlvCloneMember m = some c → c = m
  | .none _ _ _, c, h | .leaf _ _, c, h => by
    simp only [simpletlvCloneMember, Option.some.injEq] at h
    exact h.symm
  | .compound tag child, c, h => by
    unfold simpletlvCloneMember at h
    split_ifs at h
    obtain ⟨cs, hcs, rfl⟩ := Option.map_eq_some_iff.1 h
    rw [simpletlvCloneFrom_eq hcs]

theorem simpletlvCloneFrom_eq : ∀ {ms cs : List SimpletlvMember},
    simpletlvCloneFrom ms = some cs → cs = ms
  | [], cs, h => by
    simp only [simpletlvCloneFrom, Option.some.injEq] at h
    exact h.symm
  | m :: ms, cs, h => by
    unfold simpletlvCloneFrom at h
    split at h
    · rename_i c cs' hc hcs
      simp only [Option.some.injEq] at h
      rw [← h, simpletlvCloneMember_eq hc, simpletlvCloneFrom_eq hcs]
    · simp at h

end

theorem simpletlvClone_eq {ms cs : List SimpletlvMember} (h : simpletlvClone ms = some cs) :
    cs = ms := by
  unfold simpletlvClone at h
  split_ifs at h
  exact simpletlvCloneFrom_eq h

end Copies

section Applets

theorem short_appletInformation : Short appletInformation := by decide

theorem pkiProperties_short (objectId : Bytes) (tagLen valLen : ℕ) (bits : ℤ)
    (hid : objectId.length = 2) :
    ∀ m ∈ pkiProperties objectId tagLen valLen bits, Short m := by
  simp only [pkiProperties, List.forall_mem_cons]
  refine ⟨short_appletInformation, by decide, short_compound (by decide) ?_ ?_, by decide,
    by decide⟩
  · simp [Encodable, EncodableMember, hid, length_ushort2lebytes]
    decide
  · simp [serialise, record, header, hid, length_ushort2lebytes]

/-- An applet built from its data, if these could be made. -/
theorem of_map_private {x : Except Fault (Option VCardAppletPrivate)}
    {f : VCardAppletPrivate → VCardApplet} {a : VCardApplet}
    (h : (do return (← x).map f) = (.ok (some a) : Except Fault (Option VCardApplet))) :
    ∃ p, x = .ok (some p) ∧ a = f p := by
  simp only [bind_eq_ok, pure_eq, Except.ok.injEq, Option.map_eq_some_iff] at h
  obtain ⟨-, hx, p, rfl, rfl⟩ := h
  exact ⟨p, hx, rfl⟩

theorem cacNewPkiApplet_fresh {i : ℕ} {cert : Bytes} {key : VCardKey} {a : VCardApplet}
    (h : cacNewPkiApplet emul i cert key = .ok (some a)) : Fresh a := by
  obtain ⟨p, hp, rfl⟩ := of_map_private h
  simp only [cacNewPkiAppletPrivate, bind_eq_ok] at hp
  obtain ⟨tagBuffer, -, hp⟩ := hp
  rcases tagBuffer with _ | tagBuffer
  · simp at hp
  simp only [bind_eq_ok] at hp
  obtain ⟨valBuffer, -, hp⟩ := hp
  rcases valBuffer with _ | valBuffer
  · simp at hp
  simp only [pure_eq, Except.ok.injEq, Option.map_eq_some_iff] at hp
  obtain ⟨tlv, htlv, rfl⟩ := hp
  obtain rfl := simpletlvClone_eq htlv
  exact ⟨.pki (propertiesOk_own rfl (show 3 ≤ 5 by decide) (show 5 ≤ 5 by decide)
    (show 5 < 2 ^ 16 by decide) (pkiProperties_short _ _ _ _ rfl)) rfl, show 7 ≤ 16 by decide, rfl⟩

theorem cacNewAcaApplet_fresh {certCount : ℕ} (h : certCount ≤ maxPkiApplets) :
    Fresh (cacNewAcaApplet certCount) :=
  ⟨.aca (propertiesOk_own rfl (show 1 ≤ 14 by decide) (show 14 ≤ 14 by decide) (by decide)
    (by decide)) rfl h, show 7 ≤ 16 by decide, rfl⟩

theorem propertiesOk_cccLink {p : VCardAppletPrivate} (h : p.properties = .cccLink)
    (hlen : p.propertiesLen ≤ 5) (hlong : p.longPropertiesLen ≤ 5) : PropertiesOk p := by
  refine ⟨fun _ => h ▸ hlen, fun _ => h ▸ hlong,
    fun _ => h ▸ show 5 < 2 ^ 16 by decide, fun shared => ?_⟩
  rw [h]
  have h5 := shared.2
  simp only [AppletProperties.tlv, List.forall_mem_cons]
  refine ⟨short_appletInformation, by decide, short_compound (by decide) ?_ ?_, by decide,
    by decide⟩
  · simp [Encodable, EncodableMember, h5]
    decide
  · simp [serialise, record, header, h5]

theorem cacNewCccApplet_fresh {st st' : Statics} {certCount : ℕ} {a : VCardApplet}
    (h : cacNewCccApplet st certCount = .ok (some a, st')) : Fresh a := by
  simp only [cacNewCccApplet, bind_eq_ok, pure_eq, Except.ok.injEq, Prod.mk.injEq,
    Option.map_eq_some_iff] at h
  obtain ⟨⟨q, st''⟩, hp, ⟨p, rfl, rfl⟩, rfl⟩ := h
  unfold cacNewCccAppletPrivate at hp
  split_ifs at hp with hmany
  · simp at hp
  simp only [bind_eq_ok] at hp
  obtain ⟨tagBuffer, -, hp⟩ := hp
  rcases tagBuffer with _ | tagBuffer
  · simp at hp
  simp only [bind_eq_ok] at hp
  obtain ⟨valBuffer, -, hp⟩ := hp
  rcases valBuffer with _ | valBuffer
  · simp at hp
  simp only [pure_eq, Except.ok.injEq, Prod.mk.injEq, Option.some.injEq] at hp
  obtain ⟨rfl, -⟩ := hp
  exact ⟨.commonRead (propertiesOk_cccLink rfl (show 3 ≤ 5 by decide) (show 5 ≤ 5 by decide))
    (.inl rfl),
    show 7 ≤ 16 by decide, rfl⟩

theorem tvObject_short {objectId : Bytes} (typeOfTag : UInt8) (hid : objectId.length = 2) :
    Short (tvObject objectId typeOfTag) := by
  refine short_compound (by decide) ?_ ?_
  · simp [Encodable, EncodableMember, hid]
    decide
  · simp [serialise, record, header, hid]

theorem cacNewEmptyApplet_fresh {aid : Bytes} {coids : List Bytes} {a : VCardApplet}
    (haid : aid.length ≤ 16) (hcoids : ∀ o ∈ coids, o.length = 2)
    (h : cacNewEmptyApplet aid coids = .ok (some a)) : Fresh a := by
  obtain ⟨p, hp, rfl⟩ := of_map_private h
  simp only [cacNewEmptyAppletPrivate, fitting, bind_eq_ok] at hp
  obtain ⟨tvObjects, htv, hp⟩ := hp
  split_ifs at htv with hfit
  obtain rfl := Except.ok.inj htv
  simp only [pure_eq, Except.ok.injEq, Option.map_eq_some_iff] at hp
  obtain ⟨tlv, htlv, rfl⟩ := hp
  obtain rfl := simpletlvClone_eq htlv
  rw [List.length_map] at hfit
  refine ⟨.commonRead (propertiesOk_own rfl ?_ ?_ ?_ ?_) (.inr rfl), haid, rfl⟩
  · simp only [List.length_append, List.length_map, List.length_cons, List.length_nil]
    omega
  · simp only [List.length_append, List.length_map, List.length_cons, List.length_nil]
    omega
  · simp only [List.length_append, List.length_map, List.length_cons, List.length_nil]
    omega
  · simp only [List.cons_append, List.nil_append, List.forall_mem_cons, List.forall_mem_map]
    exact ⟨short_appletInformation, short_leaf (by decide) (by simp),
      fun o ho => tvObject_short _ (hcoids o ho)⟩

theorem cacNewPassthroughApplet_fresh {label : String} {aid : Bytes} {a : VCardApplet}
    (haid : aid.length = 7) (h : cacNewPassthroughApplet label aid = some a) : Fresh a := by
  simp only [cacNewPassthroughApplet, cacNewPassthroughAppletPrivate, Option.map_eq_some_iff] at h
  obtain ⟨p, ⟨tlv, htlv, rfl⟩, rfl⟩ := h
  obtain rfl := simpletlvClone_eq htlv
  refine ⟨.passthrough (propertiesOk_own rfl (by simp) (by simp) (by simp) ?_) rfl,
    show aid.length ≤ 16 by omega, rfl⟩
  simp only [List.forall_mem_cons]
  exact ⟨short_appletInformation, by decide, tvObject_short _ (by rw [List.length_drop]; omega),
    by simp⟩

end Applets

section Card

/-- A card no command was sent to. -/
structure FreshCard (card : VCard τ) : Prop where
  type : card.type = .vm
  applets : ∀ a ∈ card.applets, Fresh a
  current : ∀ channel, card.currentApplet channel = none
  bufferResponse : card.bufferResponse = none

theorem FreshCard.vcardAddApplet (hc : FreshCard card) {a : VCardApplet} (ha : Fresh a) :
    FreshCard (vcardAddApplet card a) := by
  refine ⟨hc.type, fun b hb => ?_, fun channel => ?_, hc.bufferResponse⟩
  · rcases List.mem_append.1 hb with hb | hb
    · exact hc.applets b hb
    · exact List.mem_singleton.1 hb ▸ ha
  · simp only [Libcacard.vcardAddApplet, hc.type, reduceCtorEq, if_false]
    exact hc.current channel

theorem FreshCard.withStatics (hc : FreshCard card) (st : Statics) :
    FreshCard { card with statics := st } :=
  ⟨hc.type, hc.applets, hc.current, hc.bufferResponse⟩

theorem addNewApplets_fresh : ∀ {news : List (Except Fault (Option VCardApplet))}
    {card card' : VCard τ} {rv : VCardStatus}, FreshCard card →
    (∀ new ∈ news, ∀ a, new = .ok (some a) → Fresh a) →
    addNewApplets card news = .ok (rv, card') → FreshCard card'
  | [], card, card', rv, hc, _, h => by
    simp only [addNewApplets, Except.ok.injEq, Prod.mk.injEq] at h
    exact h.2 ▸ hc
  | new :: news, card, card', rv, hc, hnews, h => by
    obtain ⟨hnew, hrest⟩ := List.forall_mem_cons.1 hnews
    simp only [addNewApplets, bind_eq_ok] at h
    obtain ⟨_ | a, ha, h⟩ := h
    · simp only [pure_eq, Except.ok.injEq, Prod.mk.injEq] at h
      exact h.2 ▸ hc
    · exact addNewApplets_fresh (hc.vcardAddApplet (hnew a ha)) hrest h

theorem cacContainers_fresh : ∀ new ∈ cacContainers, ∀ a, new = .ok (some a) → Fresh a := by
  simp only [cacContainers, List.forall_mem_cons]
  refine ⟨?_, ?_, ?_, ?_, ?_, ?_, ?_, ?_, ?_, ?_, ?_, by simp⟩
  iterate 6 exact fun a => cacNewEmptyApplet_fresh (by decide) (by decide)
  iterate 2 exact fun a h => cacNewPassthroughApplet_fresh (by decide) (Except.ok.inj h)
  iterate 3 exact fun a => cacNewEmptyApplet_fresh (by decide) (by decide)

theorem cacCardInit_fresh {certs : List (Bytes × VCardKey)} {card' : VCard τ} {rv : VCardStatus}
    (hc : FreshCard card) (h : cacCardInit emul card certs = .ok (rv, card')) :
    FreshCard card' := by
  have hvm : FreshCard { card with type := .vm } := ⟨rfl, hc.applets, hc.current, hc.bufferResponse⟩
  unfold cacCardInit at h
  dsimp only at h
  split_ifs at h with hmany
  · simp only [pure_eq, Except.ok.injEq, Prod.mk.injEq] at h
    exact h.2 ▸ hvm
  simp only [bind_eq_ok] at h
  obtain ⟨⟨rv₁, card₁⟩, hpki, h⟩ := h
  have hcard₁ : FreshCard card₁ := by
    refine addNewApplets_fresh hvm (fun new hnew a ha => ?_) hpki
    rcases List.mem_append.1 hnew with hnew | hnew
    · obtain ⟨⟨⟨cert, key⟩, i⟩, -, rfl⟩ := List.mem_map.1 hnew
      exact cacNewPkiApplet_fresh ha
    · obtain rfl := List.mem_singleton.1 hnew
      obtain rfl : cacNewAcaApplet certs.length = a := by simpa using ha
      exact cacNewAcaApplet_fresh (Nat.le_of_not_lt hmany)
  split_ifs at h with hrv
  · simp only [pure_eq, Except.ok.injEq, Prod.mk.injEq] at h
    exact h.2 ▸ hcard₁
  simp only [bind_eq_ok] at h
  obtain ⟨⟨ccc, st⟩, hccc, h⟩ := h
  refine addNewApplets_fresh (hcard₁.withStatics st)
    (List.forall_mem_cons.2 ⟨fun a ha => ?_, cacContainers_fresh⟩) h
  obtain rfl : ccc = some a := Except.ok.inj ha
  exact cacNewCccApplet_fresh hccc

theorem vcardInit_fresh {certs : List (Bytes × VCardKey)} {card' : VCard τ} {rv : VCardStatus}
    (hc : FreshCard card) (h : vcardInit emul card .cac certs = .ok (rv, card')) :
    FreshCard card' := by
  simp only [vcardInit, bind_eq_ok] at h
  obtain ⟨⟨rv₁, card₁⟩, hcac, h⟩ := h
  have hcard₁ := cacCardInit_fresh hc hcac
  dsimp only at h
  split_ifs at h
  · simp only [pure_eq, Except.ok.injEq, Prod.mk.injEq] at h
    have hgp : FreshCard (gpCardInit card₁) :=
      hcard₁.vcardAddApplet ⟨.gp, by decide, rfl⟩
    exact h.2 ▸ hgp.vcardAddApplet ⟨.msft, by decide, rfl⟩
  · simp only [pure_eq, Except.ok.injEq, Prod.mk.injEq] at h
    exact h.2 ▸ hcard₁

theorem vcardEmulMakeCard_fresh {digest : Bytes → Option Bytes} {token : τ} {st : Statics}
    {certs : List (Bytes × VCardKey)} {rv : VCardStatus}
    (h : vcardEmulMakeCard emul digest token st certs = .ok (rv, card)) : FreshCard card := by
  have hnew : FreshCard (vcardNew token st) := ⟨rfl, by simp [vcardNew], fun _ => rfl, rfl⟩
  unfold vcardEmulMakeCard at h
  refine vcardInit_fresh ?_ h
  rcases certs with _ | ⟨⟨cert, key⟩, certs⟩
  · exact hnew
  · dsimp only
    cases digest cert with
    | none => exact hnew
    | some serial => exact ⟨hnew.type, hnew.applets, hnew.current, hnew.bufferResponse⟩

end Card

section Reachable

theorem FreshCard.cardOk (hc : FreshCard card) : CardOk card :=
  ⟨hc.type, fun a ha => ⟨(hc.applets a ha).ok, (hc.applets a ha).aid⟩,
    fun channel i hi => by rw [hc.current] at hi; cases hi⟩

theorem vcardReset_eq (hok : CardOk card) (power : VCardPower) :
    vcardReset emul card power = .ok { card with
      bufferResponse := none, token := emul.reset card.token power
      currentApplet := fun _ => none } := by
  unfold vcardReset
  rw [hok.type]

theorem cardStep_apdu {apdu : VCardAPDU} {r : Processed τ}
    (h : vcardProcessApdu emul card apdu = .ok r) :
    cardStep emul card (.apdu apdu) = .ok (some ⟨r.status, r.response⟩, r.card) := by
  simp only [cardStep, h, ok_bind, pure_eq]

theorem cardStep_reset (hok : CardOk card) (power : VCardPower) :
    cardStep emul card (.reset power) = .ok (none, { card with
      bufferResponse := none, token := emul.reset card.token power
      currentApplet := fun _ => none }) := by
  simp only [cardStep, vcardReset_eq hok, ok_bind, pure_eq]

/-- What a step is made of. -/
theorem cardStep_eq_ok {op : CardOp} {reply : Option CardReply} {card' : VCard τ}
    (hok : CardOk card) (h : cardStep emul card op = .ok (reply, card')) :
    (∃ apdu r, op = .apdu apdu ∧ vcardProcessApdu emul card apdu = .ok r
        ∧ CardStep emul (card.start apdu) apdu r ∧ reply = some ⟨r.status, r.response⟩
        ∧ card' = r.card)
      ∨ (∃ power, op = .reset power ∧ reply = none ∧ card' = { card with
          bufferResponse := none, token := emul.reset card.token power
          currentApplet := fun _ => none }) := by
  cases op with
  | apdu apdu =>
    simp only [cardStep, bind_eq_ok, pure_eq, Except.ok.injEq, Prod.mk.injEq] at h
    obtain ⟨r, hr, rfl, rfl⟩ := h
    rcases vcardProcessApdu_step hok with
      ⟨r', hr', hstep, -⟩ | ⟨he, -⟩
    · obtain rfl := Except.ok.inj (hr.symm.trans hr')
      exact .inl ⟨apdu, r, rfl, hr, hstep, rfl, rfl⟩
    · rw [he] at hr
      cases hr
  | reset power =>
    simp only [cardStep_reset hok, Except.ok.injEq, Prod.mk.injEq] at h
    exact .inr ⟨power, rfl, h.1.symm, h.2.symm⟩

theorem cardOk_reset (hok : CardOk card) (power : VCardPower) : CardOk { card with
    bufferResponse := none, token := emul.reset card.token power
    currentApplet := fun _ => none } :=
  ⟨hok.type, hok.applets, fun _ _ h => by cases h⟩

theorem cardStep_cardOk {op : CardOp} {reply : Option CardReply} {card' : VCard τ}
    (hok : CardOk card) (h : cardStep emul card op = .ok (reply, card')) : CardOk card' := by
  rcases cardStep_eq_ok hok h with ⟨apdu, r, rfl, -, hstep, rfl, rfl⟩ | ⟨power, rfl, rfl, rfl⟩
  · exact hstep.cardOk hok.start
  · exact cardOk_reset hok power

theorem Reachable.cardOk {digest : Bytes → Option Bytes} (h : Reachable emul digest card) :
    CardOk card := by
  induction h with
  | made h => exact (vcardEmulMakeCard_fresh h).cardOk
  | step _ hstep ih => exact cardStep_cardOk ih hstep
  | other _ _ ih => exact ⟨ih.type, ih.applets, ih.current⟩

end Reachable

end Libcacard
