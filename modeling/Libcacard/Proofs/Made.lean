import Libcacard.MakeCard
import Libcacard.Proofs.Build
import Mathlib.Data.List.Forall2

/-!
# What a card was made of

The initialisation of a card adds an applet for each certificate, the ACA and CCC applets, the
containers, and the Global Platform and Microsoft applets, in this order. So a card that was made
has each AID once, and commands and resets keep the AIDs.
-/

namespace Libcacard

open Machine

variable {τ : Type} {emul : Emul τ} {card card' : VCard τ}

/-- Each of these could be built. -/
abbrev Built (news : List (Except Fault (Option VCardApplet))) (as : List VCardApplet) : Prop :=
  List.Forall₂ (fun new a => new = .ok (some a)) news as

theorem vcardAddApplet_vm (h : card.type = .vm) (a : VCardApplet) :
    vcardAddApplet card a = { card with applets := card.applets ++ [a] } := by
  unfold vcardAddApplet
  rw [if_neg (by rw [h]; decide)]

/-- All applets are added, or those before the first that cannot be built. -/
theorem addNewApplets_cases : ∀ {news : List (Except Fault (Option VCardApplet))}
    {card : VCard τ} {rv : VCardStatus}, card.type = .vm →
    addNewApplets card news = .ok (rv, card') →
    ∃ as, card' = { card with applets := card.applets ++ as }
      ∧ (rv = .done ∧ Built news as
        ∨ rv = .fail ∧ ∃ before after, news = before ++ .ok none :: after ∧ Built before as)
  | [], card, rv, _, h => by
    simp only [addNewApplets, Except.ok.injEq, Prod.mk.injEq] at h
    obtain ⟨rfl, rfl⟩ := h
    exact ⟨[], by simp, .inl ⟨rfl, .nil⟩⟩
  | new :: news, card, rv, hvm, h => by
    simp only [addNewApplets, bind_eq_ok] at h
    obtain ⟨_ | a, rfl, h⟩ := h
    · simp only [pure_eq, Except.ok.injEq, Prod.mk.injEq] at h
      obtain ⟨rfl, rfl⟩ := h
      exact ⟨[], by simp, .inr ⟨rfl, [], news, rfl, .nil⟩⟩
    · dsimp only at h
      rw [vcardAddApplet_vm hvm] at h
      obtain ⟨as, rfl, hcases⟩ := addNewApplets_cases (by exact hvm) h
      refine ⟨a :: as, by simp, ?_⟩
      rcases hcases with ⟨rfl, hbuilt⟩ | ⟨rfl, before, after, rfl, hbuilt⟩
      · exact .inl ⟨rfl, .cons rfl hbuilt⟩
      · exact .inr ⟨rfl, .ok (some a) :: before, after, rfl, .cons rfl hbuilt⟩

section Ccc

/-- The slots in use are the first `m`. -/
def FilledTo (slots : Fin maxPkiApplets → Option (ByteArr 16)) (m : ℕ) : Prop :=
  ∀ i, (slots i).isSome ↔ (i : ℕ) < m

theorem FilledTo.fillSlots {slots : Fin maxPkiApplets → Option (ByteArr 16)} {m : ℕ}
    (h : FilledTo slots m) (n : ℕ) : FilledTo (fillSlots slots n) (max m n) := by
  intro i
  have hi := h i
  unfold Libcacard.fillSlots
  split_ifs with hn
  · exact ⟨fun _ => lt_max_of_lt_right hn, fun _ => rfl⟩
  · rw [hi]
    omega

theorem flat_cccBuffer (slots : Fin maxPkiApplets → Option (ByteArr 16)) :
    Flat (cccBuffer slots) := by
  have hslot : ∀ i, (cardurlMember (slots i)).isCompound = false := fun i => by
    rcases h : slots i with _ | url <;> rfl
  intro m hm
  simp only [cccBuffer, List.mem_append, List.mem_ofFn, List.mem_map] at hm
  rcases hm with ((hm | ⟨u, -, rfl⟩) | ⟨i, rfl⟩) | hm
  · revert m
    decide
  · rfl
  · exact hslot i
  · revert m
    decide

/-- What can be encoded of the buffer, and how long its values are. -/
theorem sized_cccBuffer (slots : Fin maxPkiApplets → Option (ByteArr 16)) :
    ∀ m ∈ cccBuffer slots, ∀ tag v, m = .leaf tag v → TagOk tag ∧ v.length ≤ 21 := by
  have hslot : ∀ i tag v, cardurlMember (slots i) = .leaf tag v → TagOk tag ∧ v.length ≤ 21 := by
    intro i tag v h
    rcases hs : slots i with _ | url <;> rw [hs] at h
    · cases h
    · cases h
      exact ⟨by decide, by rw [url.2]; decide⟩
  intro m hm
  simp only [cccBuffer, List.mem_append, List.mem_ofFn, List.mem_map] at hm
  rcases hm with ((hm | hm) | ⟨i, rfl⟩) | hm
  · simp only [List.mem_cons, List.not_mem_nil, or_false] at hm
    rcases hm with rfl | rfl | rfl <;> rintro _ _ ⟨⟩ <;> decide
  · obtain ⟨u, hu, rfl⟩ := hm
    rintro _ _ ⟨⟩
    exact ⟨by decide, (show ∀ u ∈ commonCardurls, u.length ≤ 21 by decide) u hu⟩
  · exact hslot i
  · simp only [List.mem_cons, List.not_mem_nil, or_false] at hm
    rcases hm with rfl | rfl | rfl | rfl | rfl | rfl | rfl | rfl | rfl <;> rintro _ _ ⟨⟩ <;> decide

theorem encodable_of_flat : ∀ {ms : List SimpletlvMember}, Flat ms →
    (∀ m ∈ ms, ∀ tag v, m = .leaf tag v → TagOk tag ∧ v.length ≤ 65534) → Encodable ms
  | [], _, _ => trivial
  | m :: ms, hflat, h => by
    obtain ⟨hm, hflat⟩ := List.forall_mem_cons.1 hflat
    obtain ⟨hleaf, h⟩ := List.forall_mem_cons.1 h
    refine ⟨?_, encodable_of_flat hflat h⟩
    cases m with
    | none => trivial
    | leaf tag v => exact hleaf tag v rfl
    | compound => cases hm

theorem length_half_le_of_sized (ty : SimpletlvBufferType) {n : ℕ} :
    ∀ {ms : List SimpletlvMember}, (∀ m ∈ ms, ∀ tag v, m = .leaf tag v → v.length ≤ n) →
      (half ty ms).length ≤ (n + 4) * ms.length
  | [], _ => Nat.zero_le _
  | m :: ms, h => by
    obtain ⟨hm, h⟩ := List.forall_mem_cons.1 h
    have ih := length_half_le_of_sized ty h
    have hrec : (halfRecord ty m).length ≤ n + 4 := by
      cases m with
      | none | compound => exact Nat.zero_le _
      | leaf tag v =>
        have hv := hm tag v rfl
        have hhead := length_header tag v.length
        cases ty <;> simp only [halfRecord, SimpletlvBufferType.hasTl, SimpletlvBufferType.hasValue,
          if_true, if_false, Bool.false_eq_true, List.length_append, List.length_nil] <;>
          split_ifs at hhead <;> omega
    rw [half_cons, List.length_append, List.length_cons, Nat.mul_succ]
    omega

theorem length_half_cccBuffer_le (slots : Fin maxPkiApplets → Option (ByteArr 16))
    (ty : SimpletlvBufferType) : (half ty (cccBuffer slots)).length ≤ 825 := by
  have hcount : (cccBuffer slots).length = 33 := by simp [cccBuffer, commonCardurls, maxPkiApplets]
  have h := length_half_le_of_sized ty fun m hm tag v he => (sized_cccBuffer slots m hm tag v he).2
  rwa [hcount] at h

/-- The files of the CCC applet can always be made. -/
theorem cacCreateFile_cccBuffer (slots : Fin maxPkiApplets → Option (ByteArr 16))
    {ty : SimpletlvBufferType} (hty : ty ≠ .both) :
    cacCreateFile (cccBuffer slots) ty = .ok (some (halfFile ty (cccBuffer slots))) := by
  have hsized := sized_cccBuffer slots
  have hle := length_half_cccBuffer_le slots ty
  have hpos : 0 < (half ty (cccBuffer slots)).length := by
    rw [cccBuffer, List.cons_append, List.cons_append, List.cons_append, List.cons_append,
      half_cons, List.length_append]
    cases ty with
    | tl | value => exact Nat.add_pos_left (by decide) _
    | both => exact absurd rfl hty
  have henc : Encodable (cccBuffer slots) := encodable_of_flat (flat_cccBuffer slots)
    fun m hm tag v he => ⟨(hsized m hm tag v he).1, by have := (hsized m hm tag v he).2; omega⟩
  rw [cacCreateFile_eq (flat_cccBuffer slots)
    (fun m hm tag v he => by have := (hsized m hm tag v he).2; omega) hty (by omega),
    if_neg fun h => absurd h.1 (by omega), fileOf, if_pos ⟨hpos, by omega, fun _ => henc⟩]

/-- The CCC applet of a card with `n` certificates, and what its creation leaves in the statics. -/
theorem cacNewCccApplet_eq (st : Statics) {n : ℕ} (hn : n ≤ maxPkiApplets) :
    cacNewCccApplet st n = .ok (some ⟨.cacCommonRead, none, cacCccAid, some
        { tagBuffer := some (halfFile .tl (cccBuffer (fillSlots st.cccPkiSlots n)))
          valBuffer := some (halfFile .value (cccBuffer (fillSlots st.cccPkiSlots n)))
          properties := .cccLink, propertiesLen := 3, longPropertiesLen := 5
          coids := [[0xdb, 0x00]], u := .cccData }⟩,
      { st with
        cccPkiSlots := fillSlots st.cccPkiSlots n
        cccBufferProperties := ⟨[0x00]
          ++ ushort2lebytes (halfFile .tl (cccBuffer (fillSlots st.cccPkiSlots n))).length
          ++ ushort2lebytes (halfFile .value (cccBuffer (fillSlots st.cccPkiSlots n))).length,
          rfl⟩ }) := by
  have htl := cacCreateFile_cccBuffer (fillSlots st.cccPkiSlots n)
    (show SimpletlvBufferType.tl ≠ .both by decide)
  have hvalue := cacCreateFile_cccBuffer (fillSlots st.cccPkiSlots n)
    (show SimpletlvBufferType.value ≠ .both by decide)
  simp only [cacNewCccApplet, cacNewCccAppletPrivate, cacCreateTlFile, cacCreateValFile, htl,
    hvalue, ok_bind, if_neg (Nat.not_lt.2 hn), pure_eq, Option.map_some]

end Ccc

section Whole

/-- The PKI applets of a card with these certificates. -/
def newPkis (emul : Emul τ) (certs : List (Bytes × VCardKey)) :
    List (Except Fault (Option VCardApplet)) :=
  certs.zipIdx.map fun ((cert, key), i) => cacNewPkiApplet emul i cert key

/-- An initialisation gets to the CCC applet. -/
def ReachesCcc (emul : Emul τ) (certs : List (Bytes × VCardKey)) : Prop :=
  certs.length ≤ maxPkiApplets ∧ ∃ pkis, Built (newPkis emul certs) pkis

/-- The applets of a card that was made, when the statics were `st` before and `st'` after. -/
structure MadeOf (emul : Emul τ) (certs : List (Bytes × VCardKey)) (st st' : Statics)
    (applets : List VCardApplet) : Prop where
  count : certs.length ≤ maxPkiApplets
  built : ∃ pkis ccc containers, Built (newPkis emul certs) pkis
    ∧ cacNewCccApplet st certs.length = .ok (some ccc, st') ∧ Built cacContainers containers
    ∧ applets = pkis ++ cacNewAcaApplet certs.length :: ccc :: containers
      ++ [⟨.gp, none, gpContainerAid, none⟩, ⟨.msft, none, msftContainerAid, none⟩]

theorem Built.exists_of_mem {news : List (Except Fault (Option VCardApplet))}
    {as : List VCardApplet} (h : Built news as) : ∀ new ∈ news, ∃ a, new = .ok (some a) := by
  induction h with
  | nil => exact fun _ h => nomatch h
  | @cons new a _ _ hnew _ ih => exact List.forall_mem_cons.2 ⟨⟨a, hnew⟩, ih⟩

theorem Built.mem_news {news : List (Except Fault (Option VCardApplet))}
    {as : List VCardApplet} (h : Built news as) : ∀ a ∈ as, .ok (some a) ∈ news := by
  induction h with
  | nil => exact fun _ h => nomatch h
  | @cons new a _ _ hnew _ ih =>
    refine List.forall_mem_cons.2 ⟨hnew ▸ List.mem_cons_self, fun b hb => ?_⟩
    exact List.mem_cons_of_mem _ (ih b hb)

theorem built_append : ∀ {news₁ news₂ : List (Except Fault (Option VCardApplet))}
    {as : List VCardApplet}, Built (news₁ ++ news₂) as →
    ∃ as₁ as₂, as = as₁ ++ as₂ ∧ Built news₁ as₁ ∧ Built news₂ as₂
  | [], _, as, h => ⟨[], as, rfl, .nil, h⟩
  | _ :: _, _, _ :: _, .cons hnew h => by
    obtain ⟨as₁, as₂, rfl, h₁, h₂⟩ := built_append h
    exact ⟨_ :: as₁, as₂, rfl, .cons hnew h₁, h₂⟩

theorem built_singleton {a : VCardApplet} {as : List VCardApplet}
    (h : Built [.ok (some a)] as) : as = [a] := by
  cases h with
  | cons hb hbs =>
    cases hbs
    obtain rfl := Option.some.inj (Except.ok.inj hb)
    rfl

theorem exists_of_isSome {new : Except Fault (Option VCardApplet)}
    (h : new.toOption.join.isSome) : ∃ a, new = .ok (some a) := by
  rcases new with e | _ | a
  · cases h
  · cases h
  · exact ⟨a, rfl⟩

theorem exists_built {news : List (Except Fault (Option VCardApplet))}
    (h : ∀ new ∈ news, new.toOption.join.isSome) : ∃ as, Built news as := by
  induction news with
  | nil => exact ⟨[], .nil⟩
  | cons new news ih =>
    obtain ⟨hnew, hnews⟩ := List.forall_mem_cons.1 h
    obtain ⟨a, ha⟩ := exists_of_isSome hnew
    obtain ⟨as, has⟩ := ih hnews
    exact ⟨a :: as, .cons ha has⟩

theorem isSome_cacContainers : ∀ new ∈ cacContainers, new.toOption.join.isSome := by
  decide +kernel

/-- A card is made, unless one of its PKI applets cannot be built. Then the CCC applet is not
reached. -/
theorem cacCardInit_cases {certs : List (Bytes × VCardKey)} {rv : VCardStatus}
    (h : cacCardInit emul card certs = .ok (rv, card')) :
    (rv = .fail ∧ ¬ ReachesCcc emul certs ∧ ∃ as,
        card' = { card with type := .vm, applets := card.applets ++ as }
        ∧ ∀ a ∈ as, .ok (some a) ∈ newPkis emul certs)
      ∨ (rv = .done ∧ certs.length ≤ maxPkiApplets ∧ ∃ pkis ccc st' containers,
        Built (newPkis emul certs) pkis
        ∧ cacNewCccApplet card.statics certs.length = .ok (some ccc, st')
        ∧ Built cacContainers containers
        ∧ card' = { card with
            type := .vm, statics := st'
            applets := card.applets
              ++ (pkis ++ cacNewAcaApplet certs.length :: ccc :: containers) }) := by
  unfold cacCardInit at h
  dsimp only at h
  by_cases hmany : maxPkiApplets < certs.length
  · rw [if_pos hmany] at h
    simp only [pure_eq, Except.ok.injEq, Prod.mk.injEq] at h
    obtain ⟨rfl, rfl⟩ := h
    exact .inl ⟨rfl, fun hr => absurd hr.1 (Nat.not_le.2 hmany), [], by simp⟩
  rw [if_neg hmany] at h
  simp only [bind_eq_ok] at h
  obtain ⟨⟨rv₁, card₁⟩, hpki, h⟩ := h
  obtain ⟨as, rfl, hcases⟩ := addNewApplets_cases (by rfl) hpki
  rcases hcases with ⟨rfl, hbuilt⟩ | ⟨rfl, before, after, hnews, hbuilt⟩
  · obtain ⟨pkis, acas, rfl, hpkis, hacas⟩ := built_append hbuilt
    obtain rfl := built_singleton hacas
    simp only [ne_eq, not_true, if_false, bind_eq_ok] at h
    obtain ⟨⟨ccc, st'⟩, hccc, h⟩ := h
    have hccc' := cacNewCccApplet_eq card.statics (Nat.le_of_not_lt hmany)
    obtain ⟨as, rfl, hcases⟩ := addNewApplets_cases (by rfl) h
    obtain ⟨ccc, rfl⟩ : ∃ a, ccc = some a := by
      obtain ⟨hccc', -⟩ := Prod.mk.inj (Except.ok.inj (hccc'.symm.trans hccc))
      exact ⟨_, hccc'.symm⟩
    rcases hcases with ⟨rfl, hbuilt⟩ | ⟨-, before, after, hnews, -⟩
    · obtain ⟨cccs, containers, rfl, hcccs, hcontainers⟩ :=
        built_append (show Built ([.ok (some ccc)] ++ _) _ from hbuilt)
      obtain rfl := built_singleton hcccs
      refine .inr ⟨rfl, Nat.le_of_not_lt hmany, pkis, ccc, st', containers, hpkis, hccc,
        hcontainers, ?_⟩
      simp only [List.append_assoc, List.cons_append, List.nil_append]
    · exfalso
      have hnone : .ok none ∈ .ok (some ccc) :: cacContainers := by rw [hnews]; simp
      rcases List.mem_cons.1 hnone with h | h
      · cases h
      · cases isSome_cacContainers _ h
  · simp only [ne_eq, reduceCtorEq, not_false_eq_true, if_true, pure_eq, Except.ok.injEq,
      Prod.mk.injEq] at h
    obtain ⟨rfl, rfl⟩ := h
    obtain ⟨after, hnews⟩ : ∃ rest, newPkis emul certs = before ++ .ok none :: rest := by
      rcases List.eq_nil_or_concat after with rfl | ⟨rest, last, rfl⟩
      · cases (List.append_inj' hnews rfl).2
      · have hconcat : before ++ .ok none :: rest.concat last
            = (before ++ .ok none :: rest) ++ [last] := by simp
        exact ⟨rest, (List.append_inj' (hnews.trans hconcat) rfl).1⟩
    refine .inl ⟨rfl, fun hr => ?_, as, rfl, fun a ha => ?_⟩
    · obtain ⟨-, pkis, hpkis⟩ := hr
      obtain ⟨a, ha⟩ := hpkis.exists_of_mem (.ok none) (by rw [hnews]; simp)
      cases ha
    · rw [hnews]
      exact List.mem_append_left _ (hbuilt.mem_news a ha)

theorem addNewApplets_built {news : List (Except Fault (Option VCardApplet))}
    {as : List VCardApplet} {card : VCard τ} (hvm : card.type = .vm) (h : Built news as) :
    addNewApplets card news = .ok (.done, { card with applets := card.applets ++ as }) := by
  induction h generalizing card with
  | nil => rw [addNewApplets, List.append_nil]
  | cons hnew _ ih =>
    rw [addNewApplets, hnew, ok_bind]
    dsimp only
    rw [vcardAddApplet_vm hvm, ih (by exact hvm)]
    simp only [List.append_assoc, List.singleton_append]

/-- What is built before an applet that cannot be built is added. -/
theorem addNewApplets_stops {before after : List (Except Fault (Option VCardApplet))}
    {as : List VCardApplet} {card : VCard τ} (hvm : card.type = .vm) (h : Built before as) :
    addNewApplets card (before ++ .ok none :: after)
      = .ok (.fail, { card with applets := card.applets ++ as }) := by
  induction h generalizing card with
  | nil =>
    rw [List.nil_append, addNewApplets, ok_bind, List.append_nil]
    rfl
  | cons hnew _ ih =>
    rw [List.cons_append, addNewApplets, hnew, ok_bind]
    dsimp only
    rw [vcardAddApplet_vm hvm, ih (by exact hvm)]
    simp only [List.append_assoc, List.singleton_append]

/-- The applets of a card, where they can all be built. -/
theorem cacCardInit_built {certs : List (Bytes × VCardKey)} {pkis containers : List VCardApplet}
    {ccc : VCardApplet} {st' : Statics} (hcount : certs.length ≤ maxPkiApplets)
    (hpkis : Built (newPkis emul certs) pkis)
    (hccc : cacNewCccApplet card.statics certs.length = .ok (some ccc, st'))
    (hcontainers : Built cacContainers containers) :
    cacCardInit emul card certs = .ok (.done, { card with
      type := .vm, statics := st'
      applets := card.applets ++ (pkis ++ cacNewAcaApplet certs.length :: ccc :: containers) }) := by
  have haca : Built [.ok (some (cacNewAcaApplet certs.length))] [cacNewAcaApplet certs.length] :=
    .cons rfl .nil
  have hpki := @addNewApplets_built τ _ _ { card with type := .vm } rfl
    (List.rel_append hpkis haca)
  have hrest := @addNewApplets_built τ _ _
    { card with
      type := .vm, statics := st'
      applets := card.applets ++ (pkis ++ [cacNewAcaApplet certs.length]) } rfl
    (.cons rfl hcontainers : Built (.ok (some ccc) :: cacContainers) _)
  unfold cacCardInit
  dsimp only
  rw [newPkis] at hpki
  rw [if_neg (Nat.not_lt.2 hcount), hpki, ok_bind]
  simp only [ne_eq, not_true, if_false]
  rw [hccc, ok_bind, hrest]
  simp only [List.append_assoc, List.singleton_append]

/-- The initialisation makes the card of the applets it builds. -/
theorem vcardInit_done_iff {certs : List (Bytes × VCardKey)} (hvm : card.type = .vm)
    (hnil : card.applets = []) : vcardInit emul card .cac certs = .ok (.done, card') ↔
      ∃ st applets, MadeOf emul certs card.statics st applets
        ∧ card' = { card with applets := applets, statics := st } := by
  obtain ⟨s, applets, current, type, st⟩ := card
  obtain rfl := hvm
  obtain rfl := hnil
  simp only [vcardInit, bind_eq_ok]
  constructor
  · rintro ⟨⟨rv, card₁⟩, hcac, h⟩
    rcases cacCardInit_cases hcac with ⟨rfl, -⟩
      | ⟨rfl, hcount, pkis, ccc, st', containers, hpkis, hccc, hcontainers, rfl⟩
    · cases h
    · simp only [if_true, pure_eq, Except.ok.injEq, Prod.mk.injEq, true_and] at h
      obtain rfl := h
      refine ⟨st', _, ⟨hcount, pkis, ccc, containers, hpkis, hccc, hcontainers, rfl⟩, ?_⟩
      simp only [msftCardInit, gpCardInit, vcardAddApplet, List.nil_append, List.append_assoc,
        List.cons_append, reduceCtorEq, if_false]
  · rintro ⟨st', applets, ⟨hcount, pkis, ccc, containers, hpkis, hccc, hcontainers, rfl⟩, rfl⟩
    refine ⟨_, cacCardInit_built hcount hpkis hccc hcontainers, ?_⟩
    simp only [if_true, msftCardInit, gpCardInit, vcardAddApplet, List.append_assoc,
      List.cons_append, List.nil_append, reduceCtorEq, if_false]
    rfl

theorem vcardEmulMakeCard_eq {digest : Bytes → Option Bytes} {token : τ} {st : Statics}
    {certs : List (Bytes × VCardKey)} : vcardEmulMakeCard emul digest token st certs
    = vcardInit emul (vcardBare digest token st certs) .cac certs := by
  cases certs <;> rfl

theorem vcardBare_new {digest : Bytes → Option Bytes} {token : τ} {st : Statics}
    {certs : List (Bytes × VCardKey)} : (vcardBare digest token st certs).type = .vm
    ∧ (vcardBare digest token st certs).applets = []
    ∧ (vcardBare digest token st certs).statics = st := by
  unfold vcardBare
  rcases certs with _ | ⟨⟨cert, key⟩, certs⟩
  · exact ⟨rfl, rfl, rfl⟩
  · dsimp only
    cases digest cert <;> exact ⟨rfl, rfl, rfl⟩

/-- A new card: it is made, or it keeps some PKI applets and leaves the statics alone. -/
theorem vcardEmulMakeCard_cases {digest : Bytes → Option Bytes} {token : τ} {st : Statics}
    {certs : List (Bytes × VCardKey)} {rv : VCardStatus}
    (h : vcardEmulMakeCard emul digest token st certs = .ok (rv, card)) :
    (rv = .fail ∧ ¬ ReachesCcc emul certs ∧ card.statics = st
        ∧ ∀ a ∈ card.applets, .ok (some a) ∈ newPkis emul certs)
      ∨ (rv = .done ∧ MadeOf emul certs st card.statics card.applets) := by
  obtain ⟨-, happlets, hstatics⟩ := @vcardBare_new τ digest token st certs
  rw [vcardEmulMakeCard_eq] at h
  simp only [vcardInit, bind_eq_ok] at h
  obtain ⟨⟨rv₁, card₁⟩, hcac, h⟩ := h
  rcases cacCardInit_cases hcac with ⟨rfl, hreach, as, rfl, has⟩
    | ⟨rfl, hcount, pkis, ccc, st', containers, hpkis, hccc, hcontainers, rfl⟩
  · simp only [reduceCtorEq, if_false, pure_eq, Except.ok.injEq, Prod.mk.injEq] at h
    obtain ⟨rfl, rfl⟩ := h
    rw [happlets]
    exact .inl ⟨rfl, hreach, hstatics, has⟩
  · simp only [if_true, pure_eq, Except.ok.injEq, Prod.mk.injEq] at h
    obtain ⟨rfl, rfl⟩ := h
    rw [hstatics] at hccc
    refine .inr ⟨rfl, hcount, pkis, ccc, containers, hpkis, hccc, hcontainers, ?_⟩
    simp only [msftCardInit, gpCardInit, vcardAddApplet, happlets, List.nil_append, List.append_assoc,
      List.cons_append]

end Whole

section Aids

theorem cardAids_nodup {n : ℕ} (h : n ≤ maxPkiApplets) : (cardAids n).Nodup :=
  (show ∀ n ≤ maxPkiApplets, (cardAids n).Nodup by decide +kernel) n h

theorem cacNewPkiApplet_aid {i : ℕ} {cert : Bytes} {key : VCardKey} {a : VCardApplet}
    (h : cacNewPkiApplet emul i cert key = .ok (some a)) : a.aid = pkiAid i := by
  obtain ⟨p, -, rfl⟩ := of_map_private h
  rfl

theorem built_pkis_aids : ∀ {certs : List (Bytes × VCardKey)} {pkis : List VCardApplet} (k : ℕ),
    Built ((certs.zipIdx k).map fun ((cert, key), i) => cacNewPkiApplet emul i cert key) pkis →
    pkis.map VCardApplet.aid = (List.range' k certs.length).map pkiAid
  | [], pkis, k, h => by
    obtain rfl := List.forall₂_nil_left_iff.1 h
    rfl
  | c :: certs, pkis, k, h => by
    rw [List.zipIdx_cons, List.map_cons] at h
    obtain ⟨a, pkis, ha, hrest, rfl⟩ := List.forall₂_cons_left_iff.1 h
    rw [List.map_cons, List.length_cons, List.range'_succ, List.map_cons, built_pkis_aids _ hrest,
      cacNewPkiApplet_aid ha]

theorem built_aids {news : List (Except Fault (Option VCardApplet))} {as : List VCardApplet}
    (h : Built news as) : as.map (fun a => some a.aid)
      = news.map fun new => new.toOption.join.map VCardApplet.aid := by
  induction h with
  | nil => rfl
  | cons hnew _ ih => rw [List.map_cons, List.map_cons, ih, hnew]; rfl

theorem MadeOf.aids {certs : List (Bytes × VCardKey)} {st st' : Statics}
    {applets : List VCardApplet} (h : MadeOf emul certs st st' applets) :
    applets.map VCardApplet.aid = cardAids certs.length := by
  obtain ⟨pkis, ccc, containers, hpkis, hccc, hcontainers, rfl⟩ := h.built
  have hc : containers.map VCardApplet.aid = [cac02f0Aid, cac02f1Aid, cac02f2Aid, cac02fbAid,
      cacPkiCertificateAid, cacPkiCredentialAid, cacPersonInstanceAid, cacPersonnelAid, cac1201Aid,
      cac1202Aid, cacAccessControlAid] := by
    refine List.map_injective_iff.2 (Option.some_injective _) ?_
    rw [List.map_map]
    exact (built_aids hcontainers).trans (by decide +kernel)
  rw [cacNewCccApplet_eq _ h.count] at hccc
  obtain ⟨hccc, -⟩ := Prod.mk.inj (Except.ok.inj hccc)
  obtain rfl := Option.some.inj hccc
  rw [newPkis] at hpkis
  simp only [List.map_append, List.map_cons, built_pkis_aids 0 hpkis, hc, ← List.range_eq_range',
    cardAids, List.append_assoc, List.cons_append, List.nil_append, List.map_nil]
  rfl

end Aids

section EveryCard

theorem CardStep.aids {apdu : VCardAPDU} {r : Processed τ} (h : CardStep emul card apdu r) :
    r.card.applets.map VCardApplet.aid = card.applets.map VCardApplet.aid := by
  cases h with
  | answer | serial | windows | deselect | loginStatus | login | nextBytes => rfl
  | handle _ ha _ _ _ => exact map_set_of ha rfl
  | select _ _ ha _ => exact map_set_of ha rfl

theorem cardStep_aids {op : CardOp} {reply : Option CardReply} (hok : CardOk card)
    (h : cardStep emul card op = .ok (reply, card')) :
    card'.applets.map VCardApplet.aid = card.applets.map VCardApplet.aid := by
  rcases cardStep_eq_ok hok h with ⟨apdu, r, rfl, -, hstep, rfl, rfl⟩ | ⟨power, rfl, rfl, rfl⟩
  · exact hstep.aids
  · rfl

theorem Reachable.aids {digest : Bytes → Option Bytes} (h : Reachable emul digest card) :
    ∃ n ≤ maxPkiApplets, card.applets.map VCardApplet.aid = cardAids n := by
  induction h with
  | made h =>
    rcases vcardEmulMakeCard_cases h with ⟨hrv, -⟩ | ⟨-, hmade⟩
    · cases hrv
    · exact ⟨_, hmade.count, hmade.aids⟩
  | step h hstep ih =>
    rw [cardStep_aids h.cardOk hstep]
    exact ih
  | other _ _ ih => exact ih

/-- On a card each applet is found by its AID. -/
theorem Reachable.find {digest : Bytes → Option Bytes} (h : Reachable emul digest card) {i : ℕ}
    {a : VCardApplet} (ha : card.applets[i]? = some a) :
    vcardFindApplet card.applets a.aid = some i := by
  obtain ⟨n, hn, haids⟩ := h.aids
  have hnodup := cardAids_nodup hn
  rw [← haids] at hnodup
  rcases hj : vcardFindApplet card.applets a.aid with _ | j
  · have hnone := List.find?_eq_none.1 hj i
      (by simpa using (List.getElem?_eq_some_iff.1 ha).1)
    simp [ha] at hnone
  · obtain ⟨b, hb, haid⟩ := vcardFindApplet_eq_some hj
    have hlt := (List.getElem?_eq_some_iff.1 hb).1
    refine congrArg some ((List.getElem?_inj (by simpa using hlt) hnodup).1 ?_)
    simp only [List.getElem?_map, ha, hb, Option.map_some, haid]

end EveryCard

end Libcacard
