import Libcacard.Proofs.Made

/-!
# What `vcard_emul_make_card` hands out

A certificate of at most 65534 bytes gets its PKI applet, a longer one does not
(`cacNewPkiApplet_cases`). So an initialisation succeeds, fails at the start, or fails at the first
certificate that is too long, with the applets of those before it added.
-/

namespace Libcacard

open Machine

variable {τ : Type} {emul : Emul τ}

section Pki

theorem length_half_pkiBuffer (cert : Bytes) : (half .tl (pkiBuffer cert)).length ≤ 16
    ∧ 0 < (half .tl (pkiBuffer cert)).length
    ∧ (half .value (pkiBuffer cert)).length = cert.length + 1 := by
  have htl := length_header Tag.pkiCertificate cert.length
  simp only [half, pkiBuffer, List.flatMap_cons, List.flatMap_nil, halfRecord,
    SimpletlvBufferType.hasTl, SimpletlvBufferType.hasValue, if_true, Bool.false_eq_true, if_false,
    List.append_nil, List.length_append, List.length_singleton, List.nil_append, length_header,
    List.length_nil]
  split_ifs <;> omega

/-- A certificate gets its applet unless it is longer than a SimpleTLV record allows. -/
theorem cacNewPkiApplet_cases (emul : Emul τ) (i : ℕ) {cert : Bytes} (key : VCardKey)
    (hint : cert.length < 2 ^ 31) :
    (cert.length ≤ 65534 ∧ ∃ a, cacNewPkiApplet emul i cert key = .ok (some a))
      ∨ (65534 < cert.length ∧ cacNewPkiApplet emul i cert key = .ok none) := by
  obtain ⟨htl, htlPos, hval⟩ := length_half_pkiBuffer cert
  have hflat : Flat (pkiBuffer cert) := by simp [Flat, pkiBuffer, SimpletlvMember.isCompound]
  have hsized : Sized (pkiBuffer cert) := by
    simp only [Sized, pkiBuffer, List.forall_mem_cons, SimpletlvMember.leaf.injEq]
    refine ⟨?_, ?_, ?_, ?_, by simp⟩ <;> rintro tag v ⟨rfl, rfl⟩
    · simp
    · exact hint
    · simp
    · simp
  have hfile := cacCreateFile_eq hflat hsized (show SimpletlvBufferType.tl ≠ .both by decide)
    (by omega)
  rw [if_neg fun h => by have := h.1; omega] at hfile
  have henc : Encodable (pkiBuffer cert) ↔ cert.length ≤ 65534 := by
    simp [Encodable, EncodableMember, pkiBuffer, TagOk, Tag.pkiCertinfo, Tag.pkiCertificate,
      Tag.pkiMscuid, Tag.pkiErrorDetectionCode]
  rcases Nat.lt_or_ge 65534 cert.length with hlong | hshort
  · refine .inr ⟨hlong, ?_⟩
    have hnone : fileOf .tl (pkiBuffer cert) = none :=
      if_neg fun h => absurd (henc.1 (h.2.2 rfl)) (by omega)
    rw [hnone] at hfile
    simp only [cacNewPkiApplet, cacNewPkiAppletPrivate, cacCreateTlFile, hfile, ok_bind, pure_eq,
      Option.map_none]
  · refine .inl ⟨hshort, ?_⟩
    have hsome : fileOf .tl (pkiBuffer cert) = some (halfFile .tl (pkiBuffer cert)) :=
      if_pos ⟨htlPos, by omega, fun _ => henc.2 hshort⟩
    have hvalue := cacCreateFile_eq hflat hsized (show SimpletlvBufferType.value ≠ .both by decide)
      (by omega)
    rw [if_neg fun h => by have := h.1; omega, fileOf,
      if_pos ⟨by omega, by omega, fun h => by cases h⟩] at hvalue
    rw [hsome] at hfile
    simp only [cacNewPkiApplet, cacNewPkiAppletPrivate, cacCreateTlFile, cacCreateValFile, hfile,
      hvalue, ok_bind, pure_eq]
    exact ⟨_, rfl⟩

/-- The PKI applets can all be built, or those before the first certificate that is too long. -/
theorem newPkis_cases (emul : Emul τ) (certs : List CardCert) (k : ℕ) :
    ((∀ c ∈ certs, c.cert.length ≤ 65534)
        ∧ ∃ as, Built (((certs.map CardCert.pair).zipIdx k).map fun ((cert, key), i) =>
          cacNewPkiApplet emul i cert key) as)
      ∨ ∃ short long rest before after as, certs = short ++ long :: rest
        ∧ (∀ c ∈ short, c.cert.length ≤ 65534) ∧ 65534 < long.cert.length
        ∧ ((certs.map CardCert.pair).zipIdx k).map (fun ((cert, key), i) =>
          cacNewPkiApplet emul i cert key) = before ++ .ok none :: after
        ∧ Built before as ∧ as.length = short.length := by
  induction certs generalizing k with
  | nil => exact .inl ⟨by simp, [], .nil⟩
  | cons c certs ih =>
    simp only [List.map_cons, List.zipIdx_cons, CardCert.pair]
    rcases cacNewPkiApplet_cases emul k c.key c.int with
      ⟨hshort, a, ha⟩ | ⟨hlong, hnone⟩
    · rcases ih (k + 1) with ⟨hall, as, has⟩
        | ⟨short, long, rest, before, after, as, rfl, hall, hlong, heq, has, hlen⟩
      · exact .inl ⟨List.forall_mem_cons.2 ⟨hshort, hall⟩, a :: as, .cons ha has⟩
      · refine .inr ⟨c :: short, long, rest, .ok (some a) :: before, after, a :: as, rfl,
          List.forall_mem_cons.2 ⟨hshort, hall⟩, hlong, ?_, .cons rfl has, ?_⟩
        · rw [ha, List.cons_append]
          exact congrArg _ heq
        · rw [List.length_cons, List.length_cons, hlen]
    · exact .inr ⟨[], c, certs, [], _, [], rfl, by simp, hlong,
        by rw [hnone, List.nil_append], .nil, rfl⟩

/-- How an initialisation ends. -/
theorem cacCardInit_outcome (emul : Emul τ) (card : VCard τ) (certs : List CardCert) :
    (maxPkiApplets < certs.length
        ∧ cacCardInit emul card (certs.map CardCert.pair) = .ok (.fail, { card with type := .vm }))
      ∨ (certs.length ≤ maxPkiApplets ∧ (∀ c ∈ certs, c.cert.length ≤ 65534)
        ∧ ∃ card', cacCardInit emul card (certs.map CardCert.pair) = .ok (.done, card'))
      ∨ certs.length ≤ maxPkiApplets ∧ ∃ short long rest as, certs = short ++ long :: rest
        ∧ (∀ c ∈ short, c.cert.length ≤ 65534) ∧ 65534 < long.cert.length
        ∧ as.length = short.length
        ∧ cacCardInit emul card (certs.map CardCert.pair)
          = .ok (.fail, { card with type := .vm, applets := card.applets ++ as }) := by
  have hlength : (certs.map CardCert.pair).length = certs.length := List.length_map _
  rcases Nat.lt_or_ge maxPkiApplets certs.length with hmany | hcount
  · refine .inl ⟨hmany, ?_⟩
    unfold cacCardInit
    dsimp only
    rw [hlength, if_pos hmany]
    rfl
  rcases newPkis_cases emul certs 0 with ⟨hall, pkis, hpkis⟩
    | ⟨short, long, rest, before, after, as, hcerts, hshort, hlong, heq, has, hlen⟩
  · obtain ⟨containers, hcontainers⟩ := exists_built isSome_cacContainers
    exact .inr (.inl ⟨hcount, hall, _, cacCardInit_built (by rw [hlength]; exact hcount) hpkis
      (cacNewCccApplet_eq card.statics (by rw [hlength]; exact hcount)) hcontainers⟩)
  · refine .inr (.inr ⟨hcount, short, long, rest, as, hcerts, hshort, hlong, hlen, ?_⟩)
    have hstop := @addNewApplets_stops τ before
      (after ++ [.ok (some (cacNewAcaApplet certs.length))]) as { card with type := .vm } rfl has
    unfold cacCardInit
    dsimp only
    rw [hlength, if_neg (Nat.not_lt.2 hcount), heq, List.append_assoc, List.cons_append, hstop,
      ok_bind]
    rfl

end Pki

section HandedOut

theorem vcardEmulGetType_ne (reader : Option (VReaderEmul τ)) :
    vcardEmulGetType reader ≠ .none := by
  rcases reader with _ | reader
  · simp [vcardEmulGetType, vcardEmulTypeSelect]
  · simp only [vcardEmulGetType]
    split_ifs with h
    · exact h
    · simp [vcardEmulTypeSelect]

variable {digest : Bytes → Option Bytes} {st : Statics} {reader : Option (VReaderEmul τ)}

/-- Whatever `vcard_init` returns, its card is handed out. -/
theorem vcardEmulMakeCardFor_slot {token : τ} {certs : List (Bytes × VCardKey)} {rv : VCardStatus}
    {card : VCard τ} (hslot : vcardEmulReaderGetSlot reader = some token)
    (h : vcardInit emul (vcardBare digest token st certs) (vcardEmulGetType reader) certs
      = .ok (rv, card)) :
    vcardEmulMakeCardFor emul digest st reader certs = .ok (some card) := by
  unfold vcardEmulMakeCardFor
  rw [if_neg (vcardEmulGetType_ne reader), hslot]
  simp only [h, ok_bind, pure_eq]

/-- A card whose initialisation fails is handed out nevertheless. -/
theorem handsOutInitialised_fail {token : τ} {certs : List (Bytes × VCardKey)} {card : VCard τ}
    (hslot : vcardEmulReaderGetSlot reader = some token)
    (h : vcardInit emul (vcardBare digest token st certs) (vcardEmulGetType reader) certs
      = .ok (.fail, card)) : ¬HandsOutInitialised emul digest st reader certs := by
  intro hinit
  obtain ⟨⟨token', hslot', hdone⟩, -⟩ := hinit card (vcardEmulMakeCardFor_slot hslot h)
  obtain rfl := Option.some.inj (hslot.symm.trans hslot')
  rw [h] at hdone
  cases hdone

theorem vcardInit_fail {card card' : VCard τ} {certs : List (Bytes × VCardKey)}
    (h : cacCardInit emul card certs = .ok (.fail, card')) :
    vcardInit emul card .cac certs = .ok (.fail, card') := by
  simp only [vcardInit, h, ok_bind, reduceCtorEq, if_false, pure_eq]

/-- A card for a reader with a slot is made whatever becomes of it. -/
theorem exists_makeCardFor {token : τ} (hslot : vcardEmulReaderGetSlot reader = some token)
    (certs : List CardCert) :
    ∃ card, vcardEmulMakeCardFor emul digest st reader (certs.map CardCert.pair)
      = .ok (some card) := by
  have hmade : ∃ rv card, vcardInit emul (vcardBare digest token st (certs.map CardCert.pair))
      (vcardEmulGetType reader) (certs.map CardCert.pair) = .ok (rv, card) := by
    rcases htype : vcardEmulGetType reader
    · exact absurd htype (vcardEmulGetType_ne reader)
    · rcases cacCardInit_outcome emul
        (vcardBare digest token st (certs.map CardCert.pair)) certs with
        ⟨-, hfail⟩ | ⟨-, -, card, hdone⟩ | ⟨-, short, long, rest, as, -, -, -, -, hfail⟩
      · exact ⟨_, _, vcardInit_fail hfail⟩
      · refine ⟨.done, msftCardInit (gpCardInit card), ?_⟩
        simp only [vcardInit, hdone, ok_bind, if_true, pure_eq]
      · exact ⟨_, _, vcardInit_fail hfail⟩
    · exact ⟨_, _, rfl⟩
  obtain ⟨rv, card, hinit⟩ := hmade
  exact ⟨card, vcardEmulMakeCardFor_slot hslot hinit⟩

theorem handsOutInitialised_iff (certs : List CardCert) :
    HandsOutInitialised emul digest st reader (certs.map CardCert.pair)
      ↔ vcardEmulReaderGetSlot reader = none ∨ vcardEmulGetType reader = .cac
        ∧ certs.length ≤ maxPkiApplets ∧ ∀ c ∈ certs, c.cert.length ≤ 65534 := by
  rcases hslot : vcardEmulReaderGetSlot reader with _ | token
  · refine iff_of_true (fun card h => ?_) (.inl rfl)
    unfold vcardEmulMakeCardFor at h
    rw [hslot] at h
    split_ifs at h with htype
    · cases h
    · cases h
  simp only [reduceCtorEq, false_or]
  rcases htype : vcardEmulGetType reader
  · exact absurd htype (vcardEmulGetType_ne reader)
  · rcases cacCardInit_outcome emul
      (vcardBare digest token st (certs.map CardCert.pair)) certs with
      ⟨hmany, hfail⟩ | ⟨hcount, hall, card', hdone⟩
      | ⟨-, short, long, rest, as, rfl, -, hlong, -, hfail⟩
    · have hinit := vcardInit_fail hfail
      rw [← htype] at hinit
      exact iff_of_false (handsOutInitialised_fail hslot hinit)
        fun h => absurd h.2.1 (Nat.not_le.2 hmany)
    · refine iff_of_true (fun card h => ?_) ⟨rfl, hcount, hall⟩
      have hinit : vcardInit emul (vcardBare digest token st (certs.map CardCert.pair)) .cac
          (certs.map CardCert.pair) = .ok (.done, msftCardInit (gpCardInit card')) := by
        simp only [vcardInit, hdone, ok_bind, if_true, pure_eq]
      have hinit' := hinit
      rw [← htype] at hinit'
      rw [vcardEmulMakeCardFor_slot hslot hinit'] at h
      obtain rfl := Option.some.inj (Except.ok.inj h)
      refine ⟨⟨token, hslot, hinit'⟩, ?_⟩
      obtain ⟨hvm, hnil, -⟩ := @vcardBare_new τ digest token st (certs.map CardCert.pair)
      obtain ⟨st', applets, hmade, heq⟩ := (vcardInit_done_iff hvm hnil).1 hinit
      rw [heq]
      exact hmade.aids
    · have hinit := vcardInit_fail hfail
      rw [← htype] at hinit
      exact iff_of_false (handsOutInitialised_fail hslot hinit)
        fun h => absurd (h.2.2 long (by simp)) (Nat.not_le.2 hlong)
  · have hinit : vcardInit emul (vcardBare digest token st (certs.map CardCert.pair))
        (vcardEmulGetType reader) (certs.map CardCert.pair)
        = .ok (.fail, vcardBare digest token st (certs.map CardCert.pair)) := by
      rw [htype]
      rfl
    exact iff_of_false (handsOutInitialised_fail hslot hinit) fun h => by cases h.1

theorem failsWhole_iff (card : VCard τ) (certs : List CardCert) :
    FailsWhole emul card (certs.map CardCert.pair) ↔ maxPkiApplets < certs.length
      ∨ (∀ c ∈ certs, c.cert.length ≤ 65534) ∨ ∃ c ∈ certs.head?, 65534 < c.cert.length := by
  rcases cacCardInit_outcome emul card certs with
    ⟨hmany, hfail⟩ | ⟨-, hall, card', hdone⟩
    | ⟨hcount, short, long, rest, as, rfl, hshort, hlong, hlen, hfail⟩
  · refine iff_of_true (fun card' h => ?_) (.inl hmany)
    rw [hfail] at h
    cases h
    rfl
  · refine iff_of_true (fun card'' h => ?_) (.inr (.inl hall))
    rw [hdone] at h
    cases h
  · rcases short with _ | ⟨c, short⟩
    · refine iff_of_true (fun card' h => ?_) (.inr (.inr ⟨long, rfl, hlong⟩))
      obtain rfl := List.length_eq_zero_iff.1 hlen
      rw [hfail] at h
      cases h
      exact List.append_nil _
    · refine iff_of_false (fun h => ?_) ?_
      · have happlets := h _ hfail
        rw [List.append_right_eq_self.1 happlets] at hlen
        cases hlen
      · rintro (hmany | hall | ⟨c', hc', hlong'⟩)
        · exact absurd hmany (Nat.not_lt.2 hcount)
        · exact absurd (hall long (by simp)) (Nat.not_le.2 hlong)
        · cases hc'
          exact absurd (hshort c List.mem_cons_self) (Nat.not_le.2 hlong')

/-- A card is handed out only fully initialised, and a failed initialisation leaves the applets as
they were, exactly when there is no slot or nothing can fail, and the first certificate is the one
that is too long if any is. -/
theorem makeCard_initialised_iff (emul : Emul τ) (digest : Bytes → Option Bytes) (st : Statics)
    (reader : Option (VReaderEmul τ)) (card : VCard τ) (certs : List CardCert) :
    HandsOutInitialised emul digest st reader (certs.map CardCert.pair)
        ∧ FailsWhole emul card (certs.map CardCert.pair)
      ↔ (vcardEmulReaderGetSlot reader = none ∨ vcardEmulGetType reader = .cac
          ∧ certs.length ≤ maxPkiApplets ∧ ∀ c ∈ certs, c.cert.length ≤ 65534)
        ∧ (maxPkiApplets < certs.length ∨ (∀ c ∈ certs, c.cert.length ≤ 65534)
          ∨ ∃ c ∈ certs.head?, 65534 < c.cert.length) := by
  rw [handsOutInitialised_iff, failsWhole_iff]

/-- Eleven certificates, one more than there are PKI applets for. -/
theorem elevenCerts_handedOut : ¬HandsOutInitialised (Emul.plain none nofun) (fun _ => none)
    .initial (some ⟨some (), .cac⟩) (List.replicate 11 ([], 0)) := by
  exact @handsOutInitialised_fail _ _ _ _ _ () _ (vcardNew () .initial) rfl rfl

end HandedOut

end Libcacard
