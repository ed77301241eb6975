import Libcacard.Proofs.Transfer
import Libcacard.Requests

/-!
# Requests for properties

The loops of GET PROPERTIES select the first member with each tag of the request. A command that
asks for more bytes than these take is told their number in one byte, which is of use just if
there are at most 256 of them.
-/

namespace Libcacard

open Machine

variable {τ : Type} {s : Session τ}

section Loops

theorem find?_tag_isSome {properties : List SimpletlvMember} {t : UInt8} :
    (properties.find? fun m => m.tag = t).isSome ↔ ∃ m ∈ properties, m.tag = t := by
  simp

theorem matchingMembers_requested {properties : List SimpletlvMember} : ∀ tags : Bytes,
    matchingMembers properties tags
      = if AllFound properties tags then some (requested properties tags) else none
  | [] => (if_pos (show AllFound properties [] from List.forall_mem_nil _)).symm
  | t :: tags => by
    have hcons : AllFound properties (t :: tags)
        ↔ (properties.find? fun m => m.tag = t).isSome ∧ AllFound properties tags := by
      rw [find?_tag_isSome]
      exact List.forall_mem_cons
    cases hfind : properties.find? fun m => m.tag = t with
    | none =>
      have hnone : ¬ AllFound properties (t :: tags) := fun h => by
        have := (hcons.1 h).1
        rw [hfind] at this
        cases this
      simp only [matchingMembers, hfind, if_neg hnone]
    | some m =>
      have htail : AllFound properties (t :: tags) ↔ AllFound properties tags := by
        simpa [hfind] using hcons
      simp only [matchingMembers, matchingMembers_requested tags, requested, List.filterMap_cons,
        htail, hfind]
      split_ifs <;> rfl

theorem findProperty_eq {properties : List SimpletlvMember} {tag : UInt8} : ∀ (left i : ℕ),
    i + left ≤ properties.length → InMemory.findProperty properties tag i left
      = .ok (((properties.drop i).take left).find? fun m => m.tag = tag)
  | 0, i, _ => by rw [InMemory.findProperty, List.take_zero]; rfl
  | left + 1, i, h => by
    have hi : i < properties.length := by omega
    rw [InMemory.findProperty, List.getElem?_eq_getElem hi, List.drop_eq_getElem_cons hi,
      List.take_succ_cons, List.find?_cons]
    dsimp only
    split_ifs with ht
    · rw [decide_eq_true ht]
    · rw [decide_eq_false ht, findProperty_eq left (i + 1) (by omega)]

/-- What is left of the array after `k` of its slots were written is filled by the rest of the
tags. -/
theorem copyProperties_eq {properties : List SimpletlvMember} {n : ℕ}
    (hn : n ≤ properties.length) : ∀ (tags : Bytes) (done : List SimpletlvMember),
    InMemory.copyProperties properties n tags done.length
        (done.map some ++ List.replicate tags.length none)
      = .ok ((matchingMembers (properties.take n) tags).map fun cp => (done ++ cp).map some)
  | [], done => by
    simp [InMemory.copyProperties, matchingMembers]
  | t :: tags, done => by
    have hfind := @findProperty_eq properties t n 0 (by omega)
    rw [List.drop_zero] at hfind
    cases hm : (properties.take n).find? fun m => m.tag = t with
    | none =>
      rw [hm] at hfind
      simp only [InMemory.copyProperties, hfind, ok_bind, matchingMembers, hm]
      rfl
    | some m =>
      have hset : (done.map some ++ List.replicate (t :: tags).length none).set done.length (some m)
          = (done ++ [m]).map some ++ List.replicate tags.length none := by
        simp [List.replicate_succ]
      have hrest := copyProperties_eq hn tags (done ++ [m])
      rw [List.length_append, List.length_singleton] at hrest
      rw [hm] at hfind
      simp only [InMemory.copyProperties, hfind, ok_bind, matchingMembers, hm, hset, hrest]
      rw [if_pos (by simp)]
      rcases matchingMembers (properties.take n) tags with _ | cp
      · rfl
      · simp

theorem slots_map_some (cp : List SimpletlvMember) :
    InMemory.slots (cp.map some) = .ok cp := by
  induction cp with
  | nil => rfl
  | cons m cp ih =>
    rw [List.map_cons, InMemory.slots, ih]
    rfl

/-- Nothing outside the properties is read, and every slot that is read was written. -/
theorem selectProperties_eq {properties : List SimpletlvMember} {n : ℕ} (tags : Bytes)
    (hn : n ≤ properties.length) : InMemory.selectProperties properties n tags
      = .ok (askedProperties properties n tags) := by
  unfold InMemory.selectProperties askedProperties
  split_ifs
  · rw [firstMembers, if_pos hn]
    rfl
  · have hcopy := copyProperties_eq hn tags []
    simp only [List.length_nil, List.map_nil, List.nil_append] at hcopy
    rw [hcopy, ok_bind]
    rcases matchingMembers (properties.take n) tags with _ | cp
    · rfl
    · simp only [Option.map_some, slots_map_some, ok_bind]
      rfl

theorem inMemory_getProperties_eq {properties : List SimpletlvMember} {n : ℕ} (tags : Bytes)
    (aLe : ℕ) (hn : n ≤ properties.length) :
    InMemory.getProperties s properties n tags aLe = getProperties s properties n tags aLe := by
  rw [InMemory.getProperties, selectProperties_eq tags hn, ok_bind, getProperties, firstMembers,
    if_pos hn, ok_bind, ← askedProperties]
  rfl

end Loops

section Members

theorem askedProperties_requested (properties : List SimpletlvMember) (n : ℕ) (tags : Bytes) :
    askedProperties properties n tags
      = if tags = [] then some (properties.take n)
        else if AllFound (properties.take n) tags then some (requested (properties.take n) tags)
        else none := by
  rw [askedProperties, matchingMembers_requested]

theorem requested_subset (properties : List SimpletlvMember) (tags : Bytes) :
    ∀ m ∈ requested properties tags, m ∈ properties := by
  intro m hm
  obtain ⟨t, -, hfind⟩ := List.mem_filterMap.1 hm
  exact List.mem_of_find?_eq_some hfind

theorem requested_ne_nil {properties : List SimpletlvMember} {tags : Bytes} (hne : tags ≠ [])
    (hall : AllFound properties tags) : requested properties tags ≠ [] := by
  obtain ⟨t, tags, rfl⟩ := List.exists_cons_of_ne_nil hne
  obtain ⟨m, hm⟩ := Option.isSome_iff_exists.1 (find?_tag_isSome.2 (hall t List.mem_cons_self))
  exact List.ne_nil_of_mem (List.mem_filterMap.2 ⟨t, List.mem_cons_self, hm⟩)

/-- A list of records is encoded and sent. -/
theorem getProperties_sends {properties cp : List SimpletlvMember} {n : ℕ} {tags : Bytes}
    (aLe : ℕ) (hn : n ≤ properties.length) (henc : Encodable properties)
    (hrecords : ∀ m ∈ properties, ¬ m.isNone) (hsub : ∀ m ∈ cp, m ∈ properties) (hne : cp ≠ [])
    (hbytes : (serialise cp).length < 2 ^ 31)
    (hasked : askedProperties properties n tags = some cp) :
    InMemory.getProperties s properties n tags aLe
      = .ok (propertiesReply s (serialise cp) aLe) := by
  have hcp : Encodable cp :=
    encodable_iff_forall.2 fun m hm => encodable_iff_forall.1 henc m (hsub m hm)
  have hnil : serialise cp ≠ [] := by
    intro hnil
    obtain ⟨m, hm⟩ := List.exists_mem_of_ne_nil _ hne
    exact hrecords m (hsub m hm) (isNone_of_length_serialise (congrArg List.length hnil) m hm)
  rw [inMemory_getProperties_eq tags aLe hn, getProperties_encodable aLe hn hcp hbytes hasked,
    if_neg hnil]

/-- Just the requested members are handed to the encoder, and nothing outside the list of
properties or the array of members is read. A tag that no member has is not found, and nothing
else happens; otherwise the first member with each tag is sent in the order of the request, or
all members if there is no request. -/
theorem getProperties_returns_requested (s : Session τ) (properties : List SimpletlvMember)
    (n : ℕ) (tags : Bytes) (aLe : ℕ) (hn : n ≤ properties.length) :
    InMemory.selectProperties properties n tags
        = .ok (if tags = [] then some (properties.take n)
          else if AllFound (properties.take n) tags then some (requested (properties.take n) tags)
          else none)
      ∧ ((∃ t ∈ tags, ∀ m ∈ properties.take n, m.tag ≠ t) →
        InMemory.getProperties s properties n tags aLe
          = .ok (vcardMakeResponse Status.errorDataNotFound, s))
      ∧ (Encodable properties → (∀ m ∈ properties, ¬ m.isNone) → tags ≠ [] →
        AllFound (properties.take n) tags →
        (serialise (requested (properties.take n) tags)).length < 2 ^ 31 →
        InMemory.getProperties s properties n tags aLe
          = .ok (propertiesReply s (serialise (requested (properties.take n) tags)) aLe))
      ∧ (Encodable properties → (∀ m ∈ properties, ¬ m.isNone) → 0 < n →
        (serialise (properties.take n)).length < 2 ^ 31 →
        InMemory.getProperties s properties n [] aLe
          = .ok (propertiesReply s (serialise (properties.take n)) aLe)) := by
  refine ⟨?_, ?_, ?_, ?_⟩
  · rw [selectProperties_eq tags hn, askedProperties_requested]
  · rintro ⟨t, ht, hmiss⟩
    have hnot : ¬ AllFound (properties.take n) tags := fun hall => by
      obtain ⟨m, hm, hmt⟩ := hall t ht
      exact hmiss m hm hmt
    rw [inMemory_getProperties_eq tags aLe hn]
    exact getProperties_none aLe hn (by
      rw [askedProperties_requested, if_neg (List.ne_nil_of_mem ht), if_neg hnot])
  · intro henc hrecords hne hall hbytes
    refine getProperties_sends aLe hn henc hrecords
      (fun m hm => List.mem_of_mem_take (requested_subset _ _ m hm)) (requested_ne_nil hne hall)
      hbytes ?_
    rw [askedProperties_requested, if_neg hne, if_pos hall]
  · intro henc hrecords hpos hbytes
    have hne : properties.take n ≠ [] := by
      refine List.ne_nil_of_length_pos ?_
      rw [List.length_take]
      omega
    refine getProperties_sends aLe hn henc hrecords (fun m hm => List.mem_of_mem_take hm) hne
      hbytes ?_
    rw [askedProperties_requested, if_pos rfl]

theorem getProperties_returns_requested_twice :
    InMemory.getProperties (⟨none, 0, ⟨List.replicate 32 0, rfl⟩, 0, (), []⟩ : Session Unit)
        [.leaf 0x01 [0x07], .compound 0x50 [.leaf 0x41 [0xdb, 0x00]], .leaf 0x50 []] 3
        [0x50, 0x01, 0x50] 15
      = .ok (propertiesReply ⟨none, 0, ⟨List.replicate 32 0, rfl⟩, 0, (), []⟩
        [0x50, 0x04, 0x41, 0x02, 0xdb, 0x00, 0x01, 0x01, 0x07, 0x50, 0x04, 0x41, 0x02, 0xdb, 0x00]
        15) :=
  (getProperties_returns_requested _ _ _ _ _ (by decide)).2.2.1 (by decide) (by decide)
    (by decide) (by decide) (by decide)

end Members

section Repeat

variable {emul : Emul τ} {shared : ByteArr 5} {p : VCardAppletPrivate} {apdu : VCardAPDU}

theorem exists_repeats (apdu : VCardAPDU) (hint : UInt8) :
    ∃ again : VCardAPDU, again.Repeats apdu hint := by
  have hbody : apdu.body.length < 65536 := by
    rw [apdu.length_body]
    exact apdu.aLc_lt
  have hlt := hint.toNat_lt
  have hle : 0 < (if hint = 0 then 256 else hint.toNat) := by
    split_ifs with h0
    · omega
    · exact Nat.pos_of_ne_zero fun h => h0 (UInt8.toNat_inj.1 h)
  -- the short form if the body has room there
  obtain ⟨f, hf, hanswer, hfbody⟩ : ∃ f : LengthForm, f.Wf
      ∧ f.answer = (if hint = 0 then 256 else hint.toNat) ∧ f.body = apdu.body := by
    rcases Nat.eq_zero_or_pos apdu.body.length with h0 | h0
    · exact ⟨.case2S hint, trivial, rfl, (List.length_eq_zero_iff.1 h0).symm⟩
    · by_cases h255 : apdu.body.length ≤ 255
      · exact ⟨.case4S apdu.body hint, ⟨h0, h255⟩, rfl, rfl⟩
      · refine ⟨.case4E apdu.body (if hint = 0 then 256 else hint.toNat), ⟨⟨h0, by omega⟩, ?_⟩,
          if_neg (by omega), rfl⟩
        split_ifs <;> omega
  obtain ⟨again, hCla, hIns, hP1, hP2, hLe, hbody⟩ := VCardAPDU.exists_of_form apdu.aCla apdu.aIns
    apdu.aP1 apdu.aP2 hf
  exact ⟨again, hCla, hIns, hP1, hP2, hbody.trans hfbody, hLe.trans hanswer⟩

theorem VCardAPDU.Repeats.asksTags {again : VCardAPDU} {hint : UInt8} {n : ℕ} {tags : Bytes}
    (h : again.Repeats apdu hint) (hasks : apdu.AsksTags p n tags) : again.AsksTags p n tags := by
  have hLc : again.aLc = apdu.aLc := by rw [← again.length_body, h.body_eq, apdu.length_body]
  cases hasks with
  | all hP1 hLc' => exact .all (h.aP1_eq.trans hP1) (hLc.trans hLc')
  | tags hP1 hLc' => exact h.body_eq ▸ .tags (h.aP1_eq.trans hP1) (hLc ▸ hLc')
  | long hP1 => exact .long (h.aP1_eq.trans hP1)

theorem VCardAPDU.Repeats.asksPayload {again : VCardAPDU} {hint : UInt8} {payload : Bytes}
    (h : again.Repeats apdu hint) (hpayload : apdu.AsksPayload shared p payload) :
    again.AsksPayload shared p payload := by
  obtain ⟨hP2, n, tags, cp, hasks, hcp⟩ := hpayload
  exact ⟨h.aP2_eq.trans hP2, n, tags, cp, h.asksTags hasks, hcp⟩

theorem VCardAPDU.Repeats.channel_eq {again : VCardAPDU} {hint : UInt8}
    (h : again.Repeats apdu hint) : again.channel = apdu.channel := by
  unfold VCardAPDU.channel VCardAPDU.aChannel
  simp only [h.aCla_eq]

theorem VCardAPDU.AsksTags.unique {n n' : ℕ} {tags tags' : Bytes} (h : apdu.AsksTags p n tags)
    (h' : apdu.AsksTags p n' tags') : n = n' ∧ tags = tags' := by
  cases h <;> cases h' <;> first | exact ⟨rfl, rfl⟩ | simp_all

/-- A command asks for one payload at most. -/
theorem VCardAPDU.AsksPayload.unique {payload payload' : Bytes}
    (h : apdu.AsksPayload shared p payload) (h' : apdu.AsksPayload shared p payload') :
    payload = payload' := by
  obtain ⟨-, n, tags, cp, hasks, hcp, rfl⟩ := h
  obtain ⟨-, n', tags', cp', hasks', hcp', rfl⟩ := h'
  obtain ⟨rfl, rfl⟩ := hasks.unique hasks'
  rw [Option.some.inj (hcp.symm.trans hcp')]

/-- GET PROPERTIES sends the encoding of what it asks for, or is refused. -/
theorem cacCommonProcessApdu_properties (hok : PropertiesOk p)
    (hins : apdu.aIns = Ins.cacGetProperties) :
    (∃ payload, apdu.AsksPayload shared p payload ∧ payload ≠ []
        ∧ cacCommonProcessApdu shared p s apdu
          = .ok (.answer p (propertiesReply s payload apdu.aLe)))
      ∨ ((∀ payload, apdu.AsksPayload shared p payload → payload = [])
        ∧ ∃ status ∈ staticStatuses,
          cacCommonProcessApdu shared p s apdu = .ok (.withStatus p s status)) := by
  by_cases hasks : apdu.aP2 = 0x00 ∧ ∃ n tags, apdu.AsksTags p n tags
  · obtain ⟨hP2, n, tags, hasks⟩ := hasks
    have hn : n ≤ (p.properties.tlv shared).length := by
      cases hasks
      · exact hok.propertiesLen_le shared
      · exact hok.propertiesLen_le shared
      · exact hok.longPropertiesLen_le shared
    have htags : tags.length < 2 ^ 16 := by
      have hbody := apdu.length_body
      have := apdu.aLc_lt
      cases hasks with
      | all | long => exact show 0 < 2 ^ 16 by decide
      | tags => omega
    rw [cacCommonProcessApdu_asks hins hP2 hasks]
    rcases hasked : askedProperties (p.properties.tlv shared) n tags with _ | cp
    · rw [getProperties_none apdu.aLe hn hasked]
      refine .inr ⟨?_, Status.errorDataNotFound, by decide, rfl⟩
      rintro payload ⟨-, n', tags', cp, hasks', hcp, -⟩
      obtain ⟨rfl, rfl⟩ := hasks.unique hasks'
      cases hasked.symm.trans hcp
    · obtain ⟨hlen, hmem⟩ := askedProperties_mem hasked
      have hlt := hok.length_lt shared
      have hpayload : apdu.AsksPayload shared p (serialise cp) :=
        ⟨hP2, n, tags, cp, hasks, hasked, rfl⟩
      rw [getProperties_eq apdu.aLe hn (fun m hm => hok.encodable shared m (hmem m hm)) (by omega)
        hasked]
      split_ifs with hnil
      · exact .inr ⟨fun payload h => (h.unique hpayload).trans hnil, Status.errorGeneral,
          by decide, rfl⟩
      · exact .inl ⟨_, hpayload, hnil, rfl⟩
  · have hno : apdu.aP2 = 0x00 → ∀ n tags, ¬ apdu.AsksTags p n tags :=
      fun hP2 n tags h => hasks ⟨hP2, n, tags, h⟩
    refine .inr ⟨?_, cacCommonProcessApdu_refused hins hno⟩
    rintro payload ⟨hP2, n, tags, -, h, -⟩
    exact absurd h (hno hP2 n tags)

variable {a : VCardApplet} {st : Statics} {card : VCard τ} {i : ℕ}

/-- All CAC applets leave GET PROPERTIES to the common handler. -/
theorem run_properties (hok : AppletOk a) (hp : a.appletPrivate = some p)
    (hins : apdu.aIns = Ins.cacGetProperties) : a.processApdu.run emul st a.appletPrivate s apdu
      = (do return (← cacCommonProcessApdu st.cccBufferProperties p s apdu, st)) := by
  have hread : cacCommonProcessApduRead st.cccBufferProperties p s apdu
      = cacCommonProcessApdu st.cccBufferProperties p s apdu := by
    unfold cacCommonProcessApduRead
    simp only [hins]
    rfl
  cases hok with
  | commonRead =>
    obtain rfl := Option.some.inj hp
    rw [← hread]
    rfl
  | pki _ hu =>
    obtain rfl := Option.some.inj hp
    simp only [VCardProcessAPDU.run, assertPrivate, ok_bind, cacAppletPkiProcessApdu, hu, pkiData,
      hins, ← hread]
    rfl
  | passthrough _ hu =>
    obtain rfl := Option.some.inj hp
    simp only [VCardProcessAPDU.run, assertPrivate, ok_bind, cacPassthroughContainerProcessApdu,
      hu, ptData, hins, ← hread]
    rfl
  | aca _ hu =>
    obtain rfl := Option.some.inj hp
    rw [← cacAppletAcaProcessApdu_other st.cccBufferProperties hu (by rw [hins]; decide)]
    rfl
  | gp | msft => cases hp

theorem AppletOk.propertiesOk (hok : AppletOk a) (hp : a.appletPrivate = some p) :
    PropertiesOk p := by
  cases hok with
  | commonRead h | pki h | aca h | passthrough h => exact Option.some.inj hp ▸ h
  | gp | msft => cases hp

variable (emul) in
/-- GET PROPERTIES on a card, whose applets all stay as they were. -/
theorem vcardProcessApdu_properties (hok : AppletOk a)
    (hi : card.currentApplet apdu.channel = some i) (ha : card.applets[i]? = some a)
    (hp : a.appletPrivate = some p) (hins : apdu.aIns = Ins.cacGetProperties) :
    ∃ r, vcardProcessApdu emul card apdu = .ok r ∧ r.card.applets = card.applets
      ∧ r.card.currentApplet = card.currentApplet ∧ r.card.statics = card.statics
      ∧ ((∃ payload, apdu.AsksPayload card.statics.cccBufferProperties p payload ∧ payload ≠ []
          ∧ r.response
            = some (propertiesReply (card.start apdu).toSession payload apdu.aLe).1)
        ∨ ((∀ payload, apdu.AsksPayload card.statics.cccBufferProperties p payload →
            payload = [])
          ∧ ∃ status ∈ staticStatuses, r.response = some (vcardMakeResponse status))) := by
  have hset : card.applets.set i { a with appletPrivate := some p } = card.applets := by
    rw [← hp]
    exact set_of_getElem? ha
  have hrun : a.processApdu.run emul card.statics a.appletPrivate (card.start apdu).toSession apdu
      = _ := run_properties hok hp hins
  obtain hcases := @cacCommonProcessApdu_properties _ (card.start apdu).toSession
    card.statics.cccBufferProperties _ _ (hok.propertiesOk hp) hins
  rcases hcases with ⟨payload, hpayload, hne, heq⟩ | ⟨hnil, status, hstatus, heq⟩
  · rw [heq, ok_bind] at hrun
    exact ⟨_, vcardProcessApdu_of_run hi ha hrun, hset, rfl, rfl,
      .inl ⟨payload, hpayload, hne, rfl⟩⟩
  · rw [heq, ok_bind] at hrun
    exact ⟨_, vcardProcessApdu_of_run hi ha hrun, hset, rfl, rfl,
      .inr ⟨hnil, status, hstatus, rfl⟩⟩

/-- Only a command for more bytes than there are is told a length. -/
theorem propertiesReply_hint {payload : Bytes} {aLe : ℕ} {hint : UInt8}
    (h : (propertiesReply s payload aLe).1 = vcardResponseNewStatusBytes 0x6c hint) :
    payload.length < aLe ∧ hint = UInt8.ofNat payload.length := by
  unfold propertiesReply at h
  split_ifs at h with hLe
  · exact ⟨hLe, (congrArg VCardResponse.bSw2 h).symm⟩
  · have hsw := congrArg VCardResponse.bSw1 h
    unfold respond at hsw
    split_ifs at hsw
    · exact absurd hsw (show (0x61 : UInt8) ≠ 0x6c by decide)
    · exact absurd hsw (show (0x90 : UInt8) ≠ 0x6c by decide)

theorem staticStatus_not_hint {status : UInt16} (h : status ∈ staticStatuses) (hint : UInt8) :
    vcardMakeResponse status ≠ vcardResponseNewStatusBytes 0x6c hint := by
  intro heq
  have htype := congrArg VCardResponse.bType heq
  rw [vcardMakeResponse, if_pos h] at htype
  cases htype

/-- The Le that a hint stands for. -/
theorem leOfHint_eq {n : ℕ} (h0 : 0 < n) (hle : n ≤ 256) :
    (if UInt8.ofNat n = 0 then 256 else (UInt8.ofNat n).toNat) = n := by
  have hn : (UInt8.ofNat n).toNat = n % 256 := UInt8.toNat_ofNat'
  split_ifs with hz
  · rw [hz, show (0 : UInt8).toNat = 0 from rfl] at hn
    omega
  · have : n % 256 ≠ 0 := fun h => hz (UInt8.toNat_inj.1 (hn.trans h))
    omega

theorem leOfHint_le (hint : UInt8) : (if hint = 0 then 256 else hint.toNat) ≤ 256 := by
  have := hint.toNat_lt
  split_ifs <;> omega

/-- What the repeated command is answered with. -/
theorem repeated_reply {r : Processed τ} {again : VCardAPDU} {hint : UInt8} {payload : Bytes}
    (hok : AppletOk a) (hi : card.currentApplet apdu.channel = some i)
    (ha : card.applets[i]? = some a) (hp : a.appletPrivate = some p)
    (hins : apdu.aIns = Ins.cacGetProperties)
    (hpayload : apdu.AsksPayload card.statics.cccBufferProperties p payload) (hne : payload ≠ [])
    (hr : vcardProcessApdu emul card apdu = .ok r) (hagain : again.Repeats apdu hint) :
    ∃ r' s, vcardProcessApdu emul r.card again = .ok r'
      ∧ r'.response = some (propertiesReply (s : Session τ) payload again.aLe).1 := by
  obtain ⟨r₀, hr₀, happlets, hcurrent, hstatics, -⟩ :=
    vcardProcessApdu_properties emul hok hi ha hp hins
  obtain rfl := Except.ok.inj (hr.symm.trans hr₀)
  have hi' : r.card.currentApplet again.channel = some i := by
    rw [hcurrent, hagain.channel_eq]
    exact hi
  have ha' : r.card.applets[i]? = some a := by
    rw [happlets]
    exact ha
  have hpayload' := hagain.asksPayload hpayload
  rw [← hstatics] at hpayload'
  obtain ⟨r', hr', -, -, -, ⟨payload', hasks, -, hreply⟩ | ⟨hnil, -⟩⟩ :=
    vcardProcessApdu_properties emul hok hi' ha' hp (hagain.aIns_eq.trans hins)
  · obtain rfl := hpayload'.unique hasks
    exact ⟨r', _, hr', hreply⟩
  · exact absurd (hnil payload hpayload') hne

theorem lengthHint_usable (hok : AppletOk a) (hi : card.currentApplet apdu.channel = some i)
    (ha : card.applets[i]? = some a) (hp : a.appletPrivate = some p)
    (hins : apdu.aIns = Ins.cacGetProperties)
    (hfits : ∀ payload, apdu.AsksPayload card.statics.cccBufferProperties p payload →
      ¬ (256 < payload.length ∧ payload.length < apdu.aLe)) :
    LengthHintUsable emul card p apdu := by
  intro r hint hr hhint
  obtain ⟨r₀, hr₀, -, -, -, hcases⟩ :=
    vcardProcessApdu_properties emul hok hi ha hp hins
  obtain rfl := Except.ok.inj (hr.symm.trans hr₀)
  rcases hcases with ⟨payload, hpayload, hne, hreply⟩ | ⟨-, status, hstatus, hreply⟩
  swap
  · exact absurd (Option.some.inj (hreply.symm.trans hhint)) (staticStatus_not_hint hstatus hint)
  obtain ⟨hlt, rfl⟩ := propertiesReply_hint (Option.some.inj (hreply.symm.trans hhint))
  refine ⟨payload, hpayload, exists_repeats apdu _, fun again hagain => ?_⟩
  have hle : payload.length ≤ 256 := Nat.le_of_not_lt fun h => hfits payload hpayload ⟨h, hlt⟩
  have hLe : again.aLe = payload.length :=
    hagain.aLe_eq.trans (leOfHint_eq (List.length_pos_iff.2 hne) hle)
  obtain ⟨r', s, hr', hreply'⟩ := repeated_reply hok hi ha hp hins hpayload hne hr hagain
  refine ⟨r', hr', hreply'.trans ?_⟩
  rw [propertiesReply, respond, hLe, if_neg (Nat.lt_irrefl _), if_neg (Nat.lt_irrefl _)]

/-- A longer encoding does not fit into what the hint asks for. -/
theorem lengthHint_not_usable (hok : AppletOk a)
    (hi : card.currentApplet apdu.channel = some i) (ha : card.applets[i]? = some a)
    (hp : a.appletPrivate = some p) (hins : apdu.aIns = Ins.cacGetProperties) {payload : Bytes}
    (hpayload : apdu.AsksPayload card.statics.cccBufferProperties p payload)
    (hlong : 256 < payload.length) (hlt : payload.length < apdu.aLe) :
    ¬ LengthHintUsable emul card p apdu := by
  intro husable
  have hne : payload ≠ [] := List.length_pos_iff.1 (by omega)
  obtain ⟨r, hr, -, -, -, ⟨payload', hasks, -, hreply⟩ | ⟨hnil, -⟩⟩ :=
    vcardProcessApdu_properties emul hok hi ha hp hins
  swap
  · exact hne (hnil payload hpayload)
  obtain rfl := hpayload.unique hasks
  rw [propertiesReply, if_pos hlt] at hreply
  obtain ⟨payload', hasks', ⟨again, hagain⟩, hall⟩ := husable r _ hr hreply
  obtain rfl := hpayload.unique hasks'
  obtain ⟨r', hr', hdata⟩ := hall again hagain
  obtain ⟨r₀, s, hr₀, hreply'⟩ := repeated_reply hok hi ha hp hins hpayload hne hr hagain
  obtain rfl := Except.ok.inj (hr'.symm.trans hr₀)
  have hLe : again.aLe < payload.length :=
    Nat.lt_of_le_of_lt (hagain.aLe_eq.le.trans (leOfHint_le _)) hlong
  rw [hdata, propertiesReply, if_neg (Nat.not_lt.2 hLe.le), respond, if_pos hLe] at hreply'
  have hsw := congrArg VCardResponse.bSw1 (Option.some.inj hreply')
  exact absurd hsw (show (0x90 : UInt8) ≠ 0x61 by decide)

/-- A hint is of use unless more than 256 bytes are asked for with a Le that is larger still. -/
theorem lengthHint_usable_iff {digest : Bytes → Option Bytes} (hcard : Reachable emul digest card)
    (hi : card.currentApplet apdu.channel = some i) (ha : card.applets[i]? = some a)
    (hp : a.appletPrivate = some p) (hins : apdu.aIns = Ins.cacGetProperties) :
    LengthHintUsable emul card p apdu
      ↔ ∀ payload, apdu.AsksPayload card.statics.cccBufferProperties p payload →
        ¬ (256 < payload.length ∧ payload.length < apdu.aLe) := by
  have hok := (hcard.cardOk.applets a (List.mem_of_getElem? ha)).1
  refine ⟨fun husable payload hpayload hlong => ?_, lengthHint_usable hok hi ha hp hins⟩
  exact lengthHint_not_usable hok hi ha hp hins hpayload hlong.1 hlong.2 husable

/-- GET PROPERTIES for the applet's information, forty times over and with the largest Le. -/
def askOften : VCardAPDU :=
  ⟨[0x80, 0x56, 0x02, 0x00, 0x00, 0x00, 0x28] ++ List.replicate 40 0x01 ++ [0x00, 0x00],
    ⟨40, 65536, some 7⟩, by decide, by decide⟩

/-- The payload a command for tags asks the applet for that is current after another command. -/
def askedAfter (emul : Emul τ) (first apdu : VCardAPDU) (card : VCard τ) : Option Bytes :=
  match vcardProcessApdu emul card first with
  | .error _ => none
  | .ok r => do
    let i ← r.card.currentApplet apdu.channel
    let a ← r.card.applets[i]?
    let p ← a.appletPrivate
    let cp ← askedProperties (p.properties.tlv r.card.statics.cccBufferProperties) p.propertiesLen
      apdu.body
    return serialise cp

theorem exists_of_askedAfter {first apdu : VCardAPDU} {card : VCard τ} {payload : Bytes}
    (h : askedAfter emul first apdu card = some payload) (hP1 : apdu.aP1 = 0x02)
    (hP2 : apdu.aP2 = 0x00) (hLc : apdu.aLc ≠ 0) :
    ∃ r i a p, vcardProcessApdu emul card first = .ok r
      ∧ r.card.currentApplet apdu.channel = some i ∧ r.card.applets[i]? = some a
      ∧ a.appletPrivate = some p
      ∧ apdu.AsksPayload r.card.statics.cccBufferProperties p payload := by
  unfold askedAfter at h
  split at h
  · cases h
  · rename_i r hr
    simp only [Option.bind_eq_bind, Option.bind_eq_some_iff] at h
    obtain ⟨i, hi, a, ha, p, hp, cp, hcp, hpayload⟩ := h
    exact ⟨r, i, a, p, hr, hi, ha, hp, hP2, _, _, cp, .tags hP1 hLc, hcp,
      Option.some.inj hpayload⟩

/-- What a command asks the ACA of a card without certificates for. -/
theorem exists_asked (asked : VCardAPDU) (n : ℕ) (h : madeWith
    (fun card => (askedAfter (Emul.plain none nofun) selectAca asked card).any
      fun payload => payload.length = n)
    (vcardEmulMakeCard (Emul.plain none nofun) (fun _ => none) () .initial [])) :
    ∃ card payload,
      vcardEmulMakeCard (Emul.plain none nofun) (fun _ => none) () .initial [] = .ok (.done, card)
        ∧ askedAfter (Emul.plain none nofun) selectAca asked card = some payload
        ∧ payload.length = n := by
  obtain ⟨card, hmade, hcheck⟩ := exists_of_madeWith h
  obtain ⟨payload, hpayload, hlen⟩ := (Option.any_eq_true _ _).1 hcheck
  exact ⟨card, payload, hmade, hpayload, of_decide_eq_true hlen⟩

/-- GET PROPERTIES for the applet's information, with a Le of 256. -/
def askOnce : VCardAPDU :=
  ⟨[0x80, 0x56, 0x02, 0x00, 0x01, 0x01, 0x00], ⟨1, 256, some 5⟩, by decide, by decide⟩

/-- Seven bytes are asked for with a larger Le. -/
theorem lengthHint_usable_once : ∃ card r p payload,
    vcardEmulMakeCard (Emul.plain none nofun) (fun _ => none) () .initial [] = .ok (.done, card)
      ∧ vcardProcessApdu (Emul.plain none nofun) card selectAca = .ok r
      ∧ askOnce.AsksPayload r.card.statics.cccBufferProperties p payload ∧ payload.length = 7
      ∧ LengthHintUsable (Emul.plain none nofun) r.card p askOnce := by
  obtain ⟨card, payload, hmade, hasked, hlen⟩ := exists_asked askOnce 7 (by decide +kernel)
  obtain ⟨r, i, a, p, hr, hi, ha, hp, hpayload⟩ :=
    exists_of_askedAfter hasked rfl rfl (by decide)
  refine ⟨card, r, p, payload, hmade, hr, hpayload, hlen,
    (lengthHint_usable_iff ((Reachable.made hmade).step (cardStep_apdu hr)) hi ha hp rfl).2 ?_⟩
  rintro payload' - ⟨hlong, hshort⟩
  have hLe : askOnce.aLe = 256 := rfl
  omega

/-- The 280 bytes that forty tags ask for are announced as 24 bytes. -/
theorem lengthHint_fails : ∃ card r p payload,
    vcardEmulMakeCard (Emul.plain none nofun) (fun _ => none) () .initial [] = .ok (.done, card)
      ∧ vcardProcessApdu (Emul.plain none nofun) card selectAca = .ok r
      ∧ askOften.AsksPayload r.card.statics.cccBufferProperties p payload ∧ payload.length = 280
      ∧ ¬ LengthHintUsable (Emul.plain none nofun) r.card p askOften := by
  obtain ⟨card, payload, hmade, hasked, hlen⟩ := exists_asked askOften 280
    (by decide +kernel)
  obtain ⟨r, i, a, p, hr, hi, ha, hp, hpayload⟩ :=
    exists_of_askedAfter hasked rfl rfl (by decide)
  have hok := ((Reachable.made hmade).step (cardStep_apdu hr)).cardOk
  exact ⟨card, r, p, payload, hmade, hr, hpayload, hlen,
    lengthHint_not_usable (hok.applets a (List.mem_of_getElem? ha)).1 hi ha hp rfl hpayload
      (by omega) (by rw [hlen]; decide)⟩

end Repeat

end Libcacard
