import Libcacard.GetProperties
import Libcacard.Proofs.Program
import Libcacard.Proofs.RoundTrip
import Mathlib.Data.List.Nodup

/-!
# The properties of a card's files

A PKI applet keeps the lengths of its own files, whatever other cards are made. A CCC applet
reports those of the last CCC that was made, and each is as long as the largest number of
certificates so far makes it.
-/

namespace Libcacard

open Machine

variable {τ : Type} {emul : Emul τ} {digest : Bytes → Option Bytes}

section Back

theorem valueOf_serialise {ms : List SimpletlvMember} (h : Encodable ms) (tag : UInt8) :
    valueOf tag (serialise ms) = (leaves ms).findSome? (readLeaf tag some) := by
  rw [valueOf, simpletlvParse_serialise h]
  rfl

theorem valueOf_incomplete (bs : Bytes) (h : Incomplete bs) (tag : UInt8) :
    valueOf tag bs = none := by
  have hparse : simpletlvParse ([].flatten ++ bs) = .ok [] := simpletlvParse_flatten .nil h
  rw [List.flatten_nil, List.nil_append] at hparse
  rw [valueOf, hparse]
  rfl

theorem length_of_valueOf {tag : UInt8} {v : Bytes} : ∀ {bs : Bytes}, valueOf tag bs = some v →
    1 < bs.length
  | [], h => nomatch (valueOf_incomplete [] trivial tag).symm.trans h
  | [b], h => nomatch (valueOf_incomplete [b] trivial tag).symm.trans h
  | _ :: _ :: _, _ => by simp

/-- The only member with a tag is found, wherever it is. -/
theorem findSome_leaves {tag : UInt8} {cs : List SimpletlvMember} :
    ∀ {ms : List SimpletlvMember}, .compound tag cs ∈ ms →
      (∀ m ∈ ms, m.tag = tag → m = .compound tag cs) →
      (leaves ms).findSome? (readLeaf tag some) = some (serialise cs)
  | [], hmem, _ => nomatch hmem
  | m :: ms, hmem, honly => by
    obtain ⟨hm, hms⟩ := List.forall_mem_cons.1 honly
    have htail (hne : m ≠ .compound tag cs) := findSome_leaves
      ((List.mem_cons.1 hmem).resolve_left (Ne.symm hne)) hms
    cases m with
    | none => exact htail nofun
    | leaf t v =>
      have ht : ¬ t = tag := fun h => nomatch hm h
      rw [leaves, List.findSome?_cons_of_isNone (by simp [readLeaf, ht])]
      exact htail nofun
    | compound t ds =>
      by_cases ht : t = tag
      · obtain ⟨rfl, rfl⟩ := SimpletlvMember.compound.inj (hm ht)
        rw [leaves, List.findSome?_cons, readLeaf, if_pos rfl]
      · rw [leaves, List.findSome?_cons_of_isNone (by simp [readLeaf, ht])]
        exact htail fun h => ht (SimpletlvMember.compound.inj h).1

end Back

/-- The properties of an applet with one object. -/
def objectProperties (object : UInt8) (inner : List SimpletlvMember) : List SimpletlvMember :=
  [appletInformation, .leaf Tag.propertiesNumberObjects [0x01], .compound object inner,
    .leaf 0x39 [0x00], .leaf 0x3a [0xa0, 0x00, 0x00, 0x00, 0x79, 0x03, 0x00]]

theorem exists_matchingMembers {properties : List SimpletlvMember} : ∀ {tags : Bytes},
    (∀ tag ∈ tags, ∃ m ∈ properties, m.tag = tag) →
    ∃ cp, matchingMembers properties tags = some cp
      ∧ ∀ tag ∈ tags, ∃ m ∈ cp, m.tag = tag
  | [], _ => ⟨[], rfl, by simp⟩
  | t :: tags, h => by
    obtain ⟨⟨m, hm, ht⟩, htags⟩ := List.forall_mem_cons.1 h
    obtain ⟨cp, hcp, hmem⟩ := exists_matchingMembers htags
    obtain ⟨m', hfind⟩ := Option.isSome_iff_exists.1
      (List.find?_isSome (p := fun m => m.tag = t).2 ⟨m, hm, decide_eq_true ht⟩)
    refine ⟨m' :: cp, by simp only [matchingMembers, hfind, hcp], List.forall_mem_cons.2
      ⟨⟨m', List.mem_cons_self, by simpa using List.find?_some hfind⟩, fun tag htag => ?_⟩⟩
    obtain ⟨x, hx, hxt⟩ := hmem tag htag
    exact ⟨x, List.mem_cons_of_mem _ hx, hxt⟩

section Object

variable {object : UInt8} {inner : List SimpletlvMember}

/-- Only the object has its tag. -/
theorem objectProperties_only (ho : object ∈ [Tag.propertiesTvObject, Tag.propertiesPkiObject]) :
    ∀ m ∈ objectProperties object inner, m.tag = object → m = .compound object inner := by
  have hne : object ≠ Tag.propertiesAppletInformation ∧ object ≠ Tag.propertiesNumberObjects
      ∧ object ≠ 0x39 ∧ object ≠ 0x3a := by
    simp only [List.mem_cons, List.not_mem_nil, or_false] at ho
    rcases ho with rfl | rfl <;> decide
  obtain ⟨h1, h2, h3, h4⟩ := hne
  simp only [objectProperties, List.forall_mem_cons, appletInformation, SimpletlvMember.tag]
  exact ⟨fun h => absurd h.symm h1, fun h => absurd h.symm h2, fun _ => trivial,
    fun h => absurd h.symm h3, fun h => absurd h.symm h4, by simp⟩

/-- The object is among the properties that are asked for. -/
theorem exists_askedProperties (ho : object ∈ [Tag.propertiesTvObject, Tag.propertiesPkiObject])
    {n : ℕ} {tags : Bytes}
    (h : (3 ≤ n ∧ tags = []) ∨ (n = 3 ∧ object ∈ tags ∧ ∀ tag ∈ tags,
      tag ∈ [Tag.propertiesAppletInformation, Tag.propertiesNumberObjects, object])) :
    ∃ cp, askedProperties (objectProperties object inner) n tags = some cp
      ∧ .compound object inner ∈ cp := by
  have htake : .compound object inner ∈ (objectProperties object inner).take 3 := by
    simp [objectProperties]
  unfold askedProperties
  rcases h with ⟨hn, rfl⟩ | ⟨rfl, hmem, hall⟩
  · exact ⟨_, rfl, (List.take_subset_take_left _ hn) htake⟩
  · rw [if_neg (List.ne_nil_of_mem hmem)]
    have htags : ∀ tag ∈ tags, ∃ m ∈ (objectProperties object inner).take 3, m.tag = tag := by
      intro tag htag
      have := hall tag htag
      simp only [List.mem_cons, List.not_mem_nil, or_false] at this
      rcases this with rfl | rfl | rfl <;> simp [objectProperties, appletInformation,
        SimpletlvMember.tag]
    obtain ⟨cp, hcp, hin⟩ := exists_matchingMembers htags
    obtain ⟨m, hm, hmt⟩ := hin object hmem
    have hsub := List.mem_of_mem_take ((matchingMembers_mem hcp).2 m hm)
    rw [objectProperties_only ho m hsub hmt] at hm
    exact ⟨cp, hcp, hm⟩

/-- GET PROPERTIES on an applet with one object. -/
theorem cacCommonProcessApduRead_properties {shared : ByteArr 5} {p : VCardAppletPrivate}
    {apdu : VCardAPDU} (hok : PropertiesOk p)
    (hobject : p.properties.tlv shared = objectProperties object inner)
    (hlen : p.propertiesLen = 3) (hlong : p.longPropertiesLen = 5)
    (ho : object ∈ [Tag.propertiesTvObject, Tag.propertiesPkiObject])
    (hasks : apdu.AsksProperties object) (s : Session τ) :
    ∃ cp, .compound object inner ∈ cp ∧ (∀ m ∈ cp, m ∈ objectProperties object inner)
      ∧ cacCommonProcessApduRead shared p s apdu
        = .ok (.answer p (propertiesReply s (serialise cp) apdu.aLe)) := by
  have hshort : ∀ m ∈ objectProperties object inner, Short m := hobject ▸ hok.encodable shared
  -- whichever members are asked for, the object is one of them
  have hget : ∀ {n : ℕ} {tags : Bytes}, n ≤ 5 → tags.length < 2 ^ 16 →
      ((3 ≤ n ∧ tags = []) ∨ (n = 3 ∧ object ∈ tags ∧ ∀ tag ∈ tags,
        tag ∈ [Tag.propertiesAppletInformation, Tag.propertiesNumberObjects, object])) →
      ∃ cp, .compound object inner ∈ cp ∧ (∀ m ∈ cp, m ∈ objectProperties object inner)
        ∧ getProperties s (objectProperties object inner) n tags apdu.aLe
          = .ok (propertiesReply s (serialise cp) apdu.aLe) := by
    intro n tags hn htags h
    obtain ⟨cp, hasked, hmem⟩ : ∃ cp, askedProperties (objectProperties object inner) n tags
        = some cp ∧ .compound object inner ∈ cp := exists_askedProperties ho h
    obtain ⟨hcp, hsub⟩ := askedProperties_mem hasked
    have hne : serialise cp ≠ [] := fun hnil =>
      absurd (isNone_of_length_serialise (by rw [hnil]; rfl) _ hmem)
        (by simp [SimpletlvMember.isNone])
    refine ⟨cp, hmem, hsub, ?_⟩
    rw [getProperties_eq apdu.aLe hn (fun m hm => hshort m (hsub m hm)) (by omega) hasked,
      if_neg hne]
  have hbody : apdu.body.length < 2 ^ 16 := by
    rw [apdu.length_body]
    exact apdu.aLc_lt
  have hins : apdu.aIns = Ins.cacGetProperties := hasks.ins
  unfold cacCommonProcessApduRead cacCommonProcessApdu
  simp only [hins, hasks.p2, hobject, hlen, hlong, ne_eq, not_true, if_false]
  rcases hasks.p1 with ⟨hP1, hLc⟩ | hP1 | ⟨hP1, hbody, hall⟩
  · obtain ⟨cp, hmem, hsub, hcp⟩ := hget (show 3 ≤ 5 by decide)
      (show ([] : Bytes).length < 2 ^ 16 by decide) (.inl ⟨Nat.le_refl 3, rfl⟩)
    refine ⟨cp, hmem, hsub, ?_⟩
    simp only [hP1, hLc, not_true, if_false, hcp, ok_bind, pure_eq]
    rfl
  · obtain ⟨cp, hmem, hsub, hcp⟩ := hget (Nat.le_refl 5)
      (show ([] : Bytes).length < 2 ^ 16 by decide) (.inl ⟨show 3 ≤ 5 by decide, rfl⟩)
    refine ⟨cp, hmem, hsub, ?_⟩
    simp only [hP1, hcp, ok_bind, pure_eq]
    rfl
  · obtain ⟨cp, hmem, hsub, hcp⟩ := hget (show 3 ≤ 5 by decide) ‹_› (.inr ⟨rfl, hbody, hall⟩)
    have hLc : apdu.aLc ≠ 0 := fun h0 => by
      have hnil := apdu.length_body
      rw [h0, List.length_eq_zero_iff] at hnil
      rw [hnil] at hbody
      cases hbody
    refine ⟨cp, hmem, hsub, ?_⟩
    simp only [hP1, hLc, if_false, hcp, ok_bind, pure_eq]
    rfl

end Object

section Reports

theorem propertiesReply_reports {r : Processed τ} {s : Session τ} {payload : Bytes} {aLe : ℕ}
    (hr : r.response = some (propertiesReply s payload aLe).1)
    (hs : r.card.toSession = (propertiesReply s payload aLe).2) : r.Reports payload aLe := by
  unfold Processed.Reports
  unfold propertiesReply at hr hs
  split_ifs at hr hs ⊢ with hLe
  · exact hr
  · unfold Processed.Answers
    unfold respond at hr hs
    split_ifs at hr hs ⊢
    · exact ⟨hr, congrArg Session.bufferResponse hs⟩
    · exact hr

/-- What is announced when one byte was asked for. -/
theorem Processed.Reports.pending {r : Processed τ} {payload : Bytes} (h : r.Reports payload 1)
    (hlen : 1 < payload.length) : r.response = some (bytesLeft payload.length)
      ∧ r.card.bufferResponse = some (.ofBytes payload) := by
  unfold Processed.Reports Processed.Answers at h
  rwa [if_neg (by omega), if_pos hlen] at h

theorem Processed.Reports.eq {r : Processed τ} {payload payload' : Bytes}
    (h : r.Reports payload 1) (h' : r.Reports payload' 1) (hlen : 1 < payload.length) :
    payload' = payload := by
  obtain ⟨hr, hpending⟩ := h.pending hlen
  have hsw := fun r' (hr' : r.response = some r') =>
    congrArg VCardResponse.bSw1 (Option.some.inj (hr.symm.trans hr'))
  unfold Processed.Reports Processed.Answers at h'
  split_ifs at h' with h0 h1
  · exact absurd (hsw _ h') (show (0x61 : UInt8) ≠ 0x6c by decide)
  · have hbuffer := Option.some.inj (hpending.symm.trans h'.2)
    exact congrArg VCardBufferResponse.buffer hbuffer.symm
  · exact absurd (hsw _ h') (show (0x61 : UInt8) ≠ 0x90 by decide)

end Reports

section TwoLengths

/-- GET PROPERTIES for all properties, with room for one byte. -/
def askProperties : VCardAPDU := ⟨[0x00, 0x56, 0x01, 0x00, 0x01], ⟨0, 1, none⟩, by decide, by decide⟩

/-- The properties of an applet tell these lengths. -/
structure TellsLengths (shared : ByteArr 5) (p : VCardAppletPrivate) (object : UInt8)
    (tagLen valLen : ℕ) : Prop where
  object_mem : object ∈ [Tag.propertiesTvObject, Tag.propertiesPkiObject]
  propertiesLen : p.propertiesLen = 3
  longPropertiesLen : p.longPropertiesLen = 5
  properties : ∃ objectId rest, p.properties.tlv shared = objectProperties object
    (.leaf Tag.propertiesObjectId objectId
      :: .leaf Tag.propertiesBufferProperties
        ([0x00] ++ ushort2lebytes tagLen ++ ushort2lebytes valLen) :: rest)

theorem readLengths_bytes {tagLen valLen : ℕ} (htag : tagLen ≤ 65535) (hval : valLen ≤ 65535) :
    readLengths ([0x00] ++ ushort2lebytes tagLen ++ ushort2lebytes valLen)
      = some (tagLen, valLen) := by
  obtain ⟨lo, hi, hbytes, htagLen⟩ := lebytes2ushort_bytes (Nat.lt_succ_of_le htag)
  obtain ⟨lo', hi', hbytes', hvalLen⟩ := lebytes2ushort_bytes (Nat.lt_succ_of_le hval)
  rw [hbytes, hbytes', ← htagLen, ← hvalLen]
  rfl

/-- Every GET PROPERTIES on the applet reports these lengths. -/
theorem TellsLengths.reports {card : VCard τ} {i : ℕ} {a : VCardApplet} {p : VCardAppletPrivate}
    {object : UInt8} {tagLen valLen : ℕ} {apdu : VCardAPDU}
    (h : TellsLengths card.statics.cccBufferProperties p object tagLen valLen) (hok : AppletOk a)
    (ha : card.applets[i]? = some a) (hp : a.appletPrivate = some p)
    (hprocess : a.processApdu = .cacCommonRead ∨ a.processApdu = .cacPki)
    (htag : tagLen ≤ 65535) (hval : valLen ≤ 65535) (hasks : apdu.AsksProperties object) :
    ∃ r payload, vcardProcessApdu emul (card.withCurrent apdu i) apdu = .ok r
      ∧ r.Reports payload apdu.aLe ∧ bufferLengths object payload = some (tagLen, valLen) := by
  obtain ⟨objectId, rest, hobject⟩ := h.properties
  have hins : apdu.aIns = Ins.cacGetProperties := hasks.ins
  have hpok : PropertiesOk p := by
    cases hok with
    | commonRead hpok | pki hpok | aca hpok | passthrough hpok => exact Option.some.inj hp ▸ hpok
    | gp | msft => cases hp
  obtain ⟨cp, hmem, hsub, hcp⟩ := cacCommonProcessApduRead_properties hpok hobject h.propertiesLen
    h.longPropertiesLen h.object_mem hasks ((card.withCurrent apdu i).start apdu).toSession
  have hshort : ∀ m ∈ cp, Short m := fun m hm =>
    hpok.encodable card.statics.cccBufferProperties m (hobject ▸ hsub m hm)
  have hrun : a.processApdu.run emul card.statics a.appletPrivate
      ((card.withCurrent apdu i).start apdu).toSession apdu
      = .ok (.answer p (propertiesReply ((card.withCurrent apdu i).start apdu).toSession
        (serialise cp) apdu.aLe), card.statics) := by
    cases hok with
    | commonRead =>
      obtain rfl := Option.some.inj hp
      simp only [VCardProcessAPDU.run, assertPrivate, ok_bind, hcp, pure_eq]
    | pki _ hu =>
      obtain rfl := Option.some.inj hp
      simp only [VCardProcessAPDU.run, assertPrivate, ok_bind, cacAppletPkiProcessApdu, hu, pkiData,
        hins]
      rw [hcp]
      rfl
    | aca | passthrough | gp | msft => simp at hprocess
  have henc : Encodable [_] := (hshort _ hmem).1
  refine ⟨_, serialise cp, vcardProcessApdu_of_run (i := i) (a := a) (Function.update_self ..) ha
    hrun, propertiesReply_reports rfl rfl, ?_⟩
  rw [bufferLengths, valueOf_serialise (encodable_of_short hshort), findSome_leaves hmem
    fun m hm => objectProperties_only h.object_mem m (hsub m hm), Option.bind_some,
    valueOf_serialise henc.1.2]
  exact readLengths_bytes htag hval

/-- The applet describes its files just if the lengths its properties tell are theirs. -/
theorem TellsLengths.describesFiles_iff {card : VCard τ} {i : ℕ} {a : VCardApplet}
    {p : VCardAppletPrivate} {object : UInt8} {tagLen valLen : ℕ}
    (h : TellsLengths card.statics.cccBufferProperties p object tagLen valLen) (hok : AppletOk a)
    (ha : card.applets[i]? = some a) (hp : a.appletPrivate = some p)
    (hprocess : a.processApdu = .cacCommonRead ∨ a.processApdu = .cacPki)
    (htag : tagLen ≤ 65535) (hval : valLen ≤ 65535) :
    DescribesFiles emul card object i
      ↔ tagLen = bufferLen p.tagBuffer ∧ valLen = bufferLen p.valBuffer := by
  constructor
  · intro hdesc
    have hasks : askProperties.AsksProperties object := ⟨rfl, rfl, .inl ⟨rfl, rfl⟩⟩
    obtain ⟨r, payload, hr, hreports, hlens⟩ : ∃ r payload,
        vcardProcessApdu emul (card.withCurrent askProperties i) askProperties = .ok r
          ∧ r.Reports payload askProperties.aLe
          ∧ bufferLengths object payload = some (tagLen, valLen) :=
      h.reports hok ha hp hprocess htag hval hasks
    obtain ⟨r', payload', hr', hreports', hlens'⟩ := hdesc a p askProperties ha hp hasks
    obtain rfl := Except.ok.inj (hr.symm.trans hr')
    have hlen : 1 < payload.length := by
      obtain ⟨_, hbind, -⟩ := Option.bind_eq_some_iff.1 hlens
      obtain ⟨_, hvalue, -⟩ := Option.bind_eq_some_iff.1 hbind
      exact length_of_valueOf hvalue
    rw [hreports.eq hreports' hlen, hlens] at hlens'
    exact Prod.mk.inj (Option.some.inj hlens')
  · rintro ⟨rfl, rfl⟩ a' p' apdu ha' hp' hasks
    obtain rfl := Option.some.inj (ha.symm.trans ha')
    obtain rfl := Option.some.inj (hp.symm.trans hp')
    exact h.reports hok ha hp hprocess htag hval hasks

end TwoLengths

section OfCard

/-- Two applets that differ in what commands change. -/
theorem VCardApplet.lasting_eq {a b : VCardApplet} {q : VCardAppletPrivate}
    (h : a.lasting = b.lasting) (hb : b.processApdu ≠ .cacPassthrough)
    (hq : b.appletPrivate = some q) : a.aid = b.aid ∧ a.processApdu = b.processApdu
      ∧ ∃ p, a.appletPrivate = some p ∧ { p with u := .reserved } = { q with u := .reserved } := by
  have hprocess : a.processApdu = b.processApdu := by
    have := congrArg VCardApplet.processApdu h
    exact this
  have hpriv := congrArg VCardApplet.appletPrivate h
  simp only [VCardApplet.lasting, hprocess, hb, if_false, hq, Option.map_some,
    Option.map_eq_some_iff] at hpriv
  have haid := congrArg VCardApplet.aid h
  exact ⟨haid, hprocess, hpriv⟩

theorem TellsLengths.congr {shared : ByteArr 5} {p q : VCardAppletPrivate} {object : UInt8}
    {tagLen valLen : ℕ} (h : TellsLengths shared q object tagLen valLen)
    (hpq : { p with u := .reserved } = { q with u := .reserved }) :
    TellsLengths shared p object tagLen valLen := by
  have hprops : p.properties = q.properties := congrArg (·.properties) hpq
  have hlen : p.propertiesLen = q.propertiesLen := congrArg (·.propertiesLen) hpq
  have hlong : p.longPropertiesLen = q.longPropertiesLen := congrArg (·.longPropertiesLen) hpq
  refine ⟨h.object_mem, hlen.trans h.propertiesLen, hlong.trans h.longPropertiesLen, ?_⟩
  rw [hprops]
  exact h.properties

/-- A PKI applet tells the lengths of its own files. -/
theorem cacNewPkiApplet_tells {k : ℕ} {cert : Bytes} {key : VCardKey} {a : VCardApplet}
    (h : cacNewPkiApplet emul k cert key = .ok (some a)) (shared : ByteArr 5) :
    a.processApdu = .cacPki ∧ ∃ p, a.appletPrivate = some p
      ∧ TellsLengths shared p Tag.propertiesPkiObject (bufferLen p.tagBuffer)
        (bufferLen p.valBuffer) := by
  obtain ⟨p, hp, rfl⟩ := of_map_private h
  simp only [cacNewPkiAppletPrivate, bind_eq_ok] at hp
  obtain ⟨_ | tagBuffer, -, hp⟩ := hp
  · simp at hp
  simp only [bind_eq_ok] at hp
  obtain ⟨_ | valBuffer, -, hp⟩ := hp
  · simp at hp
  simp only [pure_eq, Except.ok.injEq, Option.map_eq_some_iff] at hp
  obtain ⟨tlv, htlv, rfl⟩ := hp
  obtain rfl := simpletlvClone_eq htlv
  exact ⟨rfl, _, rfl, ⟨by decide, rfl, rfl, _, _, rfl⟩⟩

/-- A CCC applet tells the lengths all CCC applets share. -/
theorem cccPrivate_tells {shared : ByteArr 5} {M : ℕ} (h : shared.1 = cccLengths M)
    (slots : Fin maxPkiApplets → Option (ByteArr 16)) (n : ℕ) :
    TellsLengths shared (cccPrivate slots n) Tag.propertiesTvObject (cccLength .tl M)
      (cccLength .value M) := by
  refine ⟨by decide, rfl, rfl, [0xdb, 0x00], [], ?_⟩
  rw [← cccLengths, ← h]
  rfl

theorem cacContainers_not_pki {containers : List VCardApplet}
    (h : Built cacContainers containers) : ∀ a ∈ containers, a.processApdu ≠ .cacPki := by
  have hnews : ∀ new ∈ cacContainers, new.toOption.join.all fun a => a.processApdu ≠ .cacPki := by
    decide +kernel
  intro a ha
  have := hnews _ (h.mem_news a ha)
  simpa [Except.toOption] using this

/-- The applets of a card whose handler is that of the PKI applets. -/
theorem MadeOf.mem_pkis {certs : List (Bytes × VCardKey)} {st st' : Statics}
    {applets : List VCardApplet} (h : MadeOf emul certs st st' applets) {a : VCardApplet}
    (ha : a ∈ applets) (hprocess : a.processApdu = .cacPki) :
    ∃ k cert key, cacNewPkiApplet emul k cert key = .ok (some a) := by
  obtain ⟨pkis, ccc, containers, hpkis, hccc, hcontainers, rfl⟩ := h.built
  rw [cacNewCccApplet_eq _ h.count] at hccc
  obtain ⟨hccc, -⟩ := Prod.mk.inj (Except.ok.inj hccc)
  obtain rfl := Option.some.inj hccc
  simp only [List.mem_append, List.mem_cons, List.not_mem_nil, or_false] at ha
  rcases ha with (ha | rfl | rfl | ha) | rfl | rfl
  · obtain ⟨⟨⟨cert, key⟩, k⟩, -, hnew⟩ := List.mem_map.1 (hpkis.mem_news a ha)
    exact ⟨k, cert, key, hnew⟩
  · cases hprocess
  · cases hprocess
  · exact absurd hprocess (cacContainers_not_pki hcontainers a ha)
  · cases hprocess
  · cases hprocess

/-- Only the CCC applet has its AID. -/
theorem MadeOf.eq_ccc {certs : List (Bytes × VCardKey)} {st st' : Statics}
    {applets : List VCardApplet} (h : MadeOf emul certs st st' applets) {a : VCardApplet}
    (ha : a ∈ applets) (haid : a.aid = cacCccAid) :
    a = ⟨.cacCommonRead, none, cacCccAid, some (cccPrivate st.cccPkiSlots certs.length)⟩ := by
  have hnodup := cardAids_nodup h.count
  rw [← h.aids] at hnodup
  exact List.inj_on_of_nodup_map hnodup ha h.mem_ccc haid

end OfCard

section OfProgram

/-- No card made later has more certificates than all the cards before it. -/
theorem Highest.eq_iff {before after : List (NewCard τ)} {m M : ℕ} (h : Highest emul before m)
    (hM : Highest emul (before ++ after) M) (hne : ∃ new ∈ before, ReachesCcc emul new.certs) :
    M = m ↔ ∀ later ∈ after, ReachesCcc emul later.certs →
      ∃ new ∈ before, ReachesCcc emul new.certs ∧ later.certs.length ≤ new.certs.length := by
  constructor
  · rintro rfl later hlater hreach
    have hle := hM.le later (List.mem_append_right _ hlater) hreach
    rcases h.reached with rfl | ⟨new, hnew, hnew', rfl⟩
    · obtain ⟨new, hnew, hnew'⟩ := hne
      exact ⟨new, hnew, hnew', by omega⟩
    · exact ⟨new, hnew, hnew', hle⟩
  · intro hall
    refine Nat.le_antisymm (hM.le_iff.2 fun x hx hreach => ?_)
      (h.le_iff.2 fun x hx hreach => hM.le x (List.mem_append_left _ hx) hreach)
    rcases List.mem_append.1 hx with hx | hx
    · exact h.le x hx hreach
    · obtain ⟨new, hnew, hnew', hle⟩ := hall x hx hreach
      exact hle.trans (h.le new hnew hnew')

theorem FilledTo.cccLength_le {slots : Fin maxPkiApplets → Option (ByteArr 16)} {m : ℕ}
    (h : FilledTo slots m) (hm : m ≤ maxPkiApplets) (ty : SimpletlvBufferType) :
    cccLength ty m ≤ 65535 := by
  have hle := length_half_cccBuffer_le slots ty
  rw [← h.length_file hm ty, halfFile, List.length_append, length_ushort2lebytes]
  omega

theorem exists_of_map_eq {α β : Type} {f : α → β} {l l' : List α} (h : l.map f = l'.map f) {i : ℕ}
    {a : α} (ha : l[i]? = some a) : ∃ b, l'[i]? = some b ∧ f a = f b := by
  have hi := congrArg (fun l => l[i]?) h
  simp only [List.getElem?_map, ha, Option.map_some] at hi
  obtain ⟨b, hb, hfb⟩ := Option.map_eq_some_iff.1 hi.symm
  exact ⟨b, hb, hfb.symm⟩

/-- The properties of a card are right just if the CCC made last is as long as the card's own. -/
theorem propertiesRight_iff_eq {card : VCard τ} {certs : List (Bytes × VCardKey)}
    {st st' : Statics} {as : List VCardApplet} {m M : ℕ} (hok : CardOk card)
    (hmade : MadeOf emul certs st st' as) (hfilled : FilledTo st.cccPkiSlots m)
    (hm : m ≤ maxPkiApplets)
    (hlasting : card.applets.map VCardApplet.lasting = as.map VCardApplet.lasting)
    (hshared : card.statics.cccBufferProperties.1 = cccLengths M)
    (hslots : FilledTo card.statics.cccPkiSlots M) (hM : M ≤ maxPkiApplets)
    (hsmall : card.SmallFiles) : PropertiesRight emul card ↔ M = max m certs.length := by
  have hmax := hfilled.fillSlots certs.length
  have hmaxle : max m certs.length ≤ maxPkiApplets := Nat.max_le.2 ⟨hm, hmade.count⟩
  have hlens := fun ty => hmax.length_file hmaxle ty
  -- the CCC of the card, and what makes it describe its files
  have hccc : ∀ i a, card.applets[i]? = some a → a.aid = cacCccAid →
      (DescribesFiles emul card Tag.propertiesTvObject i
        ↔ cccLength .tl M = cccLength .tl (max m certs.length)
          ∧ cccLength .value M = cccLength .value (max m certs.length)) := by
    intro i a ha haid
    obtain ⟨b, hb, hab⟩ := exists_of_map_eq hlasting ha
    have hbaid : b.aid = a.aid := by
      have := congrArg VCardApplet.aid hab
      exact this.symm
    obtain rfl := hmade.eq_ccc (List.mem_of_getElem? hb) (hbaid.trans haid)
    obtain ⟨-, hprocess, p, hp, hpq⟩ := VCardApplet.lasting_eq hab nofun rfl
    have htag : bufferLen p.tagBuffer = _ := congrArg (fun p => bufferLen p.tagBuffer) hpq
    have hval : bufferLen p.valBuffer = _ := congrArg (fun p => bufferLen p.valBuffer) hpq
    rw [((cccPrivate_tells hshared st.cccPkiSlots certs.length).congr hpq).describesFiles_iff
      (hok.applets a (List.mem_of_getElem? ha)).1 ha hp (.inl hprocess)
      (hslots.cccLength_le hM .tl) (hslots.cccLength_le hM .value), htag, hval, ← hlens, ← hlens]
    rfl
  constructor
  · intro hright
    obtain ⟨i, hi⟩ := List.getElem?_of_mem hmade.mem_ccc
    obtain ⟨a, ha, hab⟩ := exists_of_map_eq hlasting.symm hi
    have haid : cacCccAid = a.aid := by
      have := congrArg VCardApplet.aid hab
      exact this
    have hlen := ((hccc i a ha haid.symm).1 ((hright i a ha).1 haid.symm)).1
    simp only [cccLength, urlSize] at hlen
    omega
  · rintro rfl i a ha
    refine ⟨fun haid => (hccc i a ha haid).2 ⟨rfl, rfl⟩, fun hprocess => ?_⟩
    obtain ⟨b, hb, hab⟩ := exists_of_map_eq hlasting ha
    have hbprocess : b.processApdu = a.processApdu := by
      have := congrArg VCardApplet.processApdu hab
      exact this.symm
    obtain ⟨k, cert, key, hnew⟩ := hmade.mem_pkis (List.mem_of_getElem? hb)
      (hbprocess.trans hprocess)
    obtain ⟨hb', q, hq, htells⟩ := cacNewPkiApplet_tells hnew card.statics.cccBufferProperties
    obtain ⟨-, -, p, hp, hpq⟩ := VCardApplet.lasting_eq hab (by rw [hb']; decide) hq
    have htag : bufferLen p.tagBuffer = bufferLen q.tagBuffer :=
      congrArg (fun p => bufferLen p.tagBuffer) hpq
    have hval : bufferLen p.valBuffer = bufferLen q.valBuffer :=
      congrArg (fun p => bufferLen p.valBuffer) hpq
    obtain ⟨hsmallTag, hsmallVal⟩ := hsmall a (List.mem_of_getElem? ha) p hprocess hp
    exact ((htells.congr hpq).describesFiles_iff (hok.applets a (List.mem_of_getElem? ha)).1 ha hp
      (.inr hprocess) (htag ▸ hsmallTag) (hval ▸ hsmallVal)).2 ⟨htag.symm, hval.symm⟩

theorem ProgramOk.propertiesRight_iff_made {news : List (NewCard τ)} {y : Program τ}
    (hy : ProgramOk emul news y) {k : ℕ} {new : NewCard τ} {card : VCard τ}
    (hnew : news[k]? = some new) (hreach : ReachesCcc emul new.certs)
    (hcard : y.cardAt k = some card) (hsmall : card.SmallFiles) :
    PropertiesRight emul card ↔ ∀ later ∈ news.drop (k + 1), ReachesCcc emul later.certs →
      ∃ before ∈ news.take (k + 1), ReachesCcc emul before.certs
        ∧ later.certs.length ≤ before.certs.length := by
  obtain ⟨M, hst⟩ := hy.statics
  obtain ⟨card₀, hcard₀, rfl⟩ := Option.map_eq_some_iff.1 hcard
  have hmade := hy.cards k new card₀ hnew hcard₀
  obtain ⟨st, st', as, m, hmadeOf, hhighest, hfilled, hlasting⟩ := hmade.applets hreach
  have hok : CardOk { card₀ with statics := y.statics } := ⟨hmade.ok.1, hmade.ok.2, hmade.ok.3⟩
  rw [propertiesRight_iff_eq hok hmadeOf hfilled hhighest.le_max hlasting
    (hst.lengths ⟨new, List.mem_of_getElem? hnew, hreach⟩) hst.filled hst.highest.le_max hsmall]
  have htake : news.take (k + 1) = news.take k ++ [new] := by
    rw [List.take_add_one, hnew, Option.toList_some]
  refine (htake ▸ hhighest.snoc hreach).eq_iff ?_ ⟨new, by rw [htake]; simp, hreach⟩
  rw [List.take_append_drop]
  exact hst.highest

/-- GET PROPERTIES describes the files of a card if and only if every later card that got to its
CCC applet has no more certificates than some card before it or the card itself. -/
theorem propertiesRight_iff {ops : List (ProgramOp τ)} {replies : List (Option CardReply)}
    {y : Program τ} (hrun : run (Program.step emul digest) .start ops = .ok (replies, y))
    {k : ℕ} {new : NewCard τ} {card : VCard τ} (hnew : (made ops)[k]? = some new)
    (hreach : ReachesCcc emul new.certs) (hcard : y.cardAt k = some card)
    (hsmall : card.SmallFiles) :
    PropertiesRight emul card
      ↔ ∀ later ∈ (made ops).drop (k + 1), ReachesCcc emul later.certs →
        ∃ before ∈ (made ops).take (k + 1), ReachesCcc emul before.certs
          ∧ later.certs.length ≤ before.certs.length :=
  (programOk_of_run hrun).propertiesRight_iff_made hnew hreach hcard hsmall

/-- A card without certificates, and then one with a certificate. -/
def growingCards : List (ProgramOp Unit) :=
  [.make (newCard []), .make (newCard [([1, 2, 3], 0)])]

theorem reaches_growingCards : ∀ new ∈ made growingCards,
    ReachesCcc (Emul.plain none nofun) new.certs := by
  simp only [made, growingCards, List.filterMap_cons, List.filterMap_nil, List.forall_mem_cons]
  exact ⟨⟨by decide, [], .nil⟩, ⟨by decide, exists_built (by decide +kernel)⟩,
    List.forall_mem_nil _⟩

/-- A program that makes cards, one of which passes a check. -/
def makesCard (emul : Emul Unit) (check : VCard Unit → Bool) (ops : List (ProgramOp Unit))
    (k : ℕ) : Bool :=
  match run (Program.step emul fun _ => none) .start ops with
  | .ok (_, y) => (y.cardAt k).any check
  | .error _ => false

theorem exists_of_makesCard {emul : Emul Unit} {check : VCard Unit → Bool}
    {ops : List (ProgramOp Unit)} {k : ℕ} (h : makesCard emul check ops k) :
    ∃ replies y card, run (Program.step emul fun _ => none) .start ops = .ok (replies, y)
      ∧ y.cardAt k = some card ∧ check card := by
  unfold makesCard at h
  split at h
  · obtain ⟨card, hcard, hcheck⟩ := (Option.any_eq_true _ _).1 h
    exact ⟨_, _, card, ‹_›, hcard, hcheck⟩
  · cases h

def hasSmallFiles (card : VCard Unit) : Bool :=
  card.applets.all fun a => a.appletPrivate.all fun p =>
    bufferLen p.tagBuffer ≤ 65535 ∧ bufferLen p.valBuffer ≤ 65535

theorem smallFiles_of_hasSmallFiles {card : VCard Unit} (h : hasSmallFiles card) :
    card.SmallFiles := by
  intro a ha p _ hp
  have ha := List.all_eq_true.1 h a ha
  rw [hp] at ha
  exact of_decide_eq_true ha

theorem propertiesRight_iff_growing : ∃ replies y card,
    run (Program.step (Emul.plain none nofun) fun _ => none) .start growingCards
        = .ok (replies, y)
      ∧ y.cardAt 1 = some card
      ∧ (PropertiesRight (Emul.plain none nofun) card
        ↔ ∀ later ∈ (made growingCards).drop 2, ReachesCcc (Emul.plain none nofun) later.certs →
          ∃ before ∈ (made growingCards).take 2, ReachesCcc (Emul.plain none nofun) before.certs
            ∧ later.certs.length ≤ before.certs.length) := by
  obtain ⟨replies, y, card, hrun, hcard, hsmall⟩ := exists_of_makesCard
    (show makesCard (Emul.plain none nofun) hasSmallFiles growingCards 1 by decide +kernel)
  exact ⟨replies, y, card, hrun, hcard, propertiesRight_iff hrun rfl
    (reaches_growingCards (newCard [([1, 2, 3], 0)]) (by simp [made, growingCards])) hcard
    (smallFiles_of_hasSmallFiles hsmall)⟩

/-- Once the second card is made, the CCC of the first reports the lengths of the second's. -/
theorem propertiesRight_fails : ∃ replies y card,
    run (Program.step (Emul.plain none nofun) fun _ => none) .start growingCards
        = .ok (replies, y)
      ∧ y.cardAt 0 = some card ∧ card.SmallFiles
      ∧ ¬ PropertiesRight (Emul.plain none nofun) card := by
  obtain ⟨replies, y, card, hrun, hcard, hsmall⟩ := exists_of_makesCard
    (show makesCard (Emul.plain none nofun) hasSmallFiles growingCards 0 by decide +kernel)
  have hsmall := smallFiles_of_hasSmallFiles hsmall
  refine ⟨replies, y, card, hrun, hcard, hsmall, fun hright => ?_⟩
  have hall := ((programOk_of_run hrun).propertiesRight_iff_made (k := 0) (show _ = some (newCard [])
    from rfl) ⟨by decide, [], .nil⟩ hcard hsmall).1 hright
  obtain ⟨before, hbefore, -, hle⟩ := hall (newCard [([1, 2, 3], 0)])
    (by simp [made, growingCards])
    (reaches_growingCards _ (by simp [made, growingCards]))
  obtain rfl : before = newCard [] := by simpa [made, growingCards] using hbefore
  exact absurd hle (by decide)

end OfProgram

end Libcacard
