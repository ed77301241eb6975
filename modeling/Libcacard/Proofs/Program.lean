import Libcacard.Program
import Libcacard.Proofs.EveryCommand
import Libcacard.Proofs.Made
import Mathlib.Data.List.ReduceOption
import Mathlib.Tactic.IntervalCases

/-!
# What the cards of a program have in common

The slots in use when a card is made are as many as the largest number of certificates any card
before it had, so its CCC has URLs of its own only if no card before it had more. Commands and
resets keep the files of all applets but those that read objects of the token.
-/

namespace Libcacard

open Machine

variable {τ : Type} {emul : Emul τ} {digest : Bytes → Option Bytes}

section Urls

/-- The URLs in the slots in use. -/
def slotUrls (slots : Fin maxPkiApplets → Option (ByteArr 16)) : List (ByteArr 16) :=
  (List.ofFn slots).reduceOption

theorem half_append (ty : SimpletlvBufferType) (ms ns : List SimpletlvMember) :
    half ty (ms ++ ns) = half ty ms ++ half ty ns := List.flatMap_append

theorem half_filter (ty : SimpletlvBufferType) (ms : List SimpletlvMember) :
    half ty (ms.filter fun m => ¬ m.isNone) = half ty ms := by
  induction ms with
  | nil => rfl
  | cons m ms ih =>
    rw [half_cons, ← ih, List.filter_cons]
    cases m <;> simp [SimpletlvMember.isNone, half_cons, halfRecord]

theorem half_slots (ty : SimpletlvBufferType) : ∀ os : List (Option (ByteArr 16)),
    half ty (os.map cardurlMember)
      = half ty (os.reduceOption.map fun url => .leaf Tag.cccApplicationCardurl url.1)
  | [] => rfl
  | none :: os => by
    rw [List.map_cons, half_cons, half_slots ty os, List.reduceOption_cons_of_none]
    rfl
  | some url :: os => by
    rw [List.map_cons, half_cons, half_slots ty os, List.reduceOption_cons_of_some, List.map_cons,
      half_cons]
    rfl

/-- The size of a URL's record in a half. -/
def urlSize : SimpletlvBufferType → ℕ
  | .tl => 2
  | .value => 16
  | .both => 18

theorem length_half_urls (ty : SimpletlvBufferType) (urls : List (ByteArr 16)) :
    (half ty (urls.map fun url => .leaf Tag.cccApplicationCardurl url.1)).length
      = urlSize ty * urls.length := by
  induction urls with
  | nil => rfl
  | cons url urls ih =>
    rw [List.map_cons, half_cons, List.length_append, ih, List.length_cons]
    have hlen := url.2
    cases ty <;> simp [halfRecord, SimpletlvBufferType.hasTl, SimpletlvBufferType.hasValue, header,
      hlen, urlSize] <;> omega

theorem length_reduceOption_filled {α : Type} : ∀ (os : List (Option α)) {m : ℕ}, m ≤ os.length →
    (∀ i o, os[i]? = some o → (o.isSome ↔ i < m)) → os.reduceOption.length = m
  | [], m, hm, _ => (Nat.le_zero.1 hm).symm
  | o :: os, 0, _, h => by
    have ho : o = none := by simpa using h 0 o rfl
    have ih := length_reduceOption_filled os (Nat.zero_le _) fun i x hx => by
      simpa using h (i + 1) x hx
    rw [ho, List.reduceOption_cons_of_none, ih]
  | o :: os, m + 1, hm, h => by
    obtain ⟨x, rfl⟩ := Option.isSome_iff_exists.1 ((h 0 o rfl).2 (Nat.succ_pos m))
    have ih := length_reduceOption_filled os (Nat.le_of_succ_le_succ hm) fun i x hx => by
      simpa using h (i + 1) x hx
    rw [List.reduceOption_cons_of_some, List.length_cons, ih]

theorem FilledTo.length {slots : Fin maxPkiApplets → Option (ByteArr 16)} {m : ℕ}
    (h : FilledTo slots m) (hm : m ≤ maxPkiApplets) : (slotUrls slots).length = m := by
  refine length_reduceOption_filled _ (by rwa [List.length_ofFn]) fun i o hi => ?_
  obtain ⟨hlt, rfl⟩ := List.getElem?_eq_some_iff.1 hi
  rw [List.getElem_ofFn]
  exact h ⟨i, by simpa using hlt⟩

/-- The buffer is the same in front of the slots and behind them, whatever is in them. -/
theorem exists_cccBuffer : ∃ front back, ∀ slots,
    cccBuffer slots = front ++ (List.ofFn slots).map cardurlMember ++ back :=
  ⟨_, _, fun slots => by rw [cccBuffer, List.map_ofFn]; rfl⟩

theorem half_cccBuffer : ∃ front back : SimpletlvBufferType → Bytes, ∀ ty slots,
    half ty (cccBuffer slots) = front ty
      ++ half ty ((slotUrls slots).map fun url => .leaf Tag.cccApplicationCardurl url.1)
      ++ back ty := by
  obtain ⟨front, back, h⟩ := exists_cccBuffer
  refine ⟨fun ty => half ty front, fun ty => half ty back, fun ty slots => ?_⟩
  rw [h, half_append, half_append, half_slots]
  rfl

theorem length_half_cccBuffer (ty : SimpletlvBufferType)
    {slots : Fin maxPkiApplets → Option (ByteArr 16)} {m : ℕ} (h : FilledTo slots m)
    (hm : m ≤ maxPkiApplets) : (half ty (cccBuffer slots)).length
      = (half ty (cccBuffer fun _ => none)).length + urlSize ty * m := by
  obtain ⟨front, back, hhalf⟩ := half_cccBuffer
  have hnone : FilledTo (fun _ => none) 0 := fun i => by simp
  simp only [hhalf, List.length_append, length_half_urls, h.length hm,
    hnone.length (Nat.zero_le _)]
  omega

/-- The slots of a card with `n` certificates, when no earlier call filled more. -/
theorem fillSlots_of_le {slots : Fin maxPkiApplets → Option (ByteArr 16)} {m n : ℕ}
    (h : FilledTo slots m) (hmn : m ≤ n) :
    fillSlots slots n = fun i : Fin maxPkiApplets =>
      if i < n then some (pkiCardurl i) else none := by
  funext i
  unfold fillSlots
  split_ifs with hi
  · rfl
  · exact Option.not_isSome_iff_eq_none.1 fun hsome => hi (Nat.lt_of_lt_of_le ((h i).1 hsome) hmn)

theorem cccEntries_leaf {n : ℕ} {m : SimpletlvMember} (hm : m ∈ cccEntries n) :
    ∃ tag v, m = .leaf tag v ∧ v.length ≤ 65534 := by
  obtain ⟨hm, hnone⟩ := List.mem_filter.1 hm
  have hflat := flat_cccBuffer _ m hm
  cases m with
  | none => simp [SimpletlvMember.isNone] at hnone
  | compound => cases hflat
  | leaf tag v =>
    have := (sized_cccBuffer _ _ hm tag v rfl).2
    exact ⟨tag, v, rfl, by omega⟩

/-- The URLs every card has and those of its PKI applets, in order, are the URLs of a CCC. -/
theorem cccEntries_cardurls {n : ℕ} (hn : n ≤ maxPkiApplets) :
    (cccEntries n).filter (fun m => m.tag = Tag.cccApplicationCardurl)
      = (commonCardurls ++ (List.range n).map fun i => (pkiCardurl i).1).map
        (.leaf Tag.cccApplicationCardurl) := by
  unfold maxPkiApplets at hn
  interval_cases n <;> rfl

/-- The files are those of the card's own entries just if no earlier call filled more slots. -/
theorem filesOf_cccEntries_iff {slots : Fin maxPkiApplets → Option (ByteArr 16)} {m n : ℕ}
    (h : FilledTo slots m) (hm : m ≤ maxPkiApplets) (hn : n ≤ maxPkiApplets) :
    FilesOf (cccEntries n) (some (halfFile .tl (cccBuffer (fillSlots slots n))))
      (some (halfFile .value (cccBuffer (fillSlots slots n)))) ↔ m ≤ n := by
  constructor
  · rintro ⟨⟨file, hfile, lo, hi, rfl, -⟩, -, -⟩
    have hown : FilledTo (fillSlots (fun _ => none) n) n := by
      simpa using (show FilledTo (fun _ => none) 0 from fun i => by simp).fillSlots n
    have hbody : half .tl (cccBuffer (fillSlots slots n)) = half .tl (cccEntries n) :=
      congrArg (List.drop 2) (Option.some.inj hfile)
    have hlen := congrArg List.length hbody
    have hsame : half .tl (cccEntries n) = half .tl (cccBuffer (fillSlots (fun _ => none) n)) :=
      half_filter .tl _
    rw [hsame, length_half_cccBuffer .tl (h.fillSlots n) (by omega),
      length_half_cccBuffer .tl hown hn] at hlen
    simp only [urlSize] at hlen
    omega
  · intro hmn
    have hhalf : ∀ ty, half ty (cccBuffer (fillSlots slots n)) = half ty (cccEntries n) :=
      fun ty => by rw [fillSlots_of_le h hmn, cccEntries, half_filter]
    have hfile : ∀ ty, IsFile (halfFile ty (cccBuffer (fillSlots slots n)))
        (half ty (cccEntries n)) := fun ty => by
      have hle := length_half_cccBuffer_le (fillSlots slots n) ty
      rw [← hhalf]
      exact isFile_halfFile_iff.2 (by omega)
    refine ⟨⟨_, rfl, hfile .tl⟩, ⟨_, rfl, hfile .value⟩, ?_⟩
    rintro t v ⟨⟩ ⟨⟩
    rw [halfFile, halfFile, hhalf, hhalf]
    exact rejoin_halves fun m hm => cccEntries_leaf hm

end Urls

section Kept

/-- What of an applet no command changes: all but the input to sign, and the files of an applet
that reads objects. -/
def VCardApplet.lasting (a : VCardApplet) : VCardApplet :=
  { a with appletPrivate :=
      if a.processApdu = .cacPassthrough then none
      else a.appletPrivate.map fun p => { p with u := .reserved } }

theorem Handling.lasting {apdu : VCardAPDU} {a : VCardApplet} {p p' : VCardAppletPrivate}
    {s s' : Session τ} (h : Handling emul apdu p s a.processApdu p' s')
    (hp : a.appletPrivate = some p) : { a with appletPrivate := some p' }.lasting = a.lasting := by
  obtain ⟨process, reset, aid, priv⟩ := a
  obtain rfl := hp
  cases h <;> rfl

theorem AppletOk.lasting_clear {a : VCardApplet} (h : AppletOk a) : a.clear.lasting = a.lasting := by
  cases h with
  | pki _ hu => simp only [VCardApplet.clear, hu, VCardApplet.lasting]; rfl
  | commonRead | aca | passthrough | gp | msft => rfl

/-- Two states of the statics in which the CCC's buffer and properties are the same. -/
def Statics.SameCcc (st st' : Statics) : Prop :=
  st'.cccPkiSlots = st.cccPkiSlots ∧ st'.cccBufferProperties = st.cccBufferProperties

theorem CardStep.lasting {card : VCard τ} {apdu : VCardAPDU} {r : Processed τ} (hok : CardOk card)
    (h : CardStep emul card apdu r) :
    r.card.applets.map VCardApplet.lasting = card.applets.map VCardApplet.lasting
      ∧ card.statics.SameCcc r.card.statics := by
  cases h with
  | answer | serial | windows | deselect | loginStatus | login | nextBytes => exact ⟨rfl, rfl, rfl⟩
  | handle _ ha hp h _ => exact ⟨map_set_of ha (h.lasting hp), rfl, rfl⟩
  | select _ _ ha _ =>
    exact ⟨map_set_of ha (hok.applets _ (List.mem_of_getElem? ha)).1.lasting_clear, rfl, rfl⟩

theorem cardStep_lasting {card card' : VCard τ} {op : CardOp} {reply : Option CardReply}
    (hok : CardOk card) (h : cardStep emul card op = .ok (reply, card')) :
    card'.applets.map VCardApplet.lasting = card.applets.map VCardApplet.lasting
      ∧ card.statics.SameCcc card'.statics := by
  rcases cardStep_eq_ok hok h with ⟨apdu, r, rfl, -, hstep, rfl, rfl⟩ | ⟨power, rfl, rfl, rfl⟩
  · have hkeeps := hstep.lasting hok.start
    exact hkeeps
  · exact ⟨rfl, rfl, rfl⟩

end Kept

section Programs

/-- The largest number of certificates of those that get to the CCC applet. -/
structure Highest (emul : Emul τ) (news : List (NewCard τ)) (m : ℕ) : Prop where
  le : ∀ new ∈ news, ReachesCcc emul new.certs → new.certs.length ≤ m
  reached : m = 0 ∨ ∃ new ∈ news, ReachesCcc emul new.certs ∧ new.certs.length = m

theorem Highest.nil : Highest emul [] 0 := ⟨by simp, .inl rfl⟩

theorem Highest.le_max {news : List (NewCard τ)} {m : ℕ} (h : Highest emul news m) :
    m ≤ maxPkiApplets := by
  rcases h.reached with rfl | ⟨new, -, hreach, rfl⟩
  · exact Nat.zero_le _
  · exact hreach.1

theorem Highest.snoc {news : List (NewCard τ)} {m : ℕ} (h : Highest emul news m) {new : NewCard τ}
    (hreach : ReachesCcc emul new.certs) :
    Highest emul (news ++ [new]) (max m new.certs.length) := by
  refine ⟨fun x hx hx' => ?_, ?_⟩
  · rcases List.mem_append.1 hx with hx | hx
    · exact Nat.le_trans (h.le x hx hx') (Nat.le_max_left _ _)
    · rw [List.mem_singleton.1 hx]
      exact Nat.le_max_right _ _
  · rcases Nat.le_total m new.certs.length with hle | hle
    · exact .inr ⟨new, by simp, hreach, (Nat.max_eq_right hle).symm⟩
    · rw [Nat.max_eq_left hle]
      refine h.reached.imp_right fun ⟨x, hx, hx'⟩ => ⟨x, List.mem_append_left _ hx, hx'⟩

theorem Highest.snoc_fail {news : List (NewCard τ)} {m : ℕ} (h : Highest emul news m)
    {new : NewCard τ} (hreach : ¬ ReachesCcc emul new.certs) : Highest emul (news ++ [new]) m := by
  refine ⟨fun x hx hx' => ?_, h.reached.imp_right fun ⟨x, hx, hx'⟩ =>
    ⟨x, List.mem_append_left _ hx, hx'⟩⟩
  rcases List.mem_append.1 hx with hx | hx
  · exact h.le x hx hx'
  · exact absurd (List.mem_singleton.1 hx ▸ hx') hreach

theorem Highest.le_iff {news : List (NewCard τ)} {m n : ℕ} (h : Highest emul news m) :
    m ≤ n ↔ ∀ new ∈ news, ReachesCcc emul new.certs → new.certs.length ≤ n := by
  refine ⟨fun hmn new hnew hreach => Nat.le_trans (h.le new hnew hreach) hmn, fun hall => ?_⟩
  rcases h.reached with rfl | ⟨new, hnew, hreach, rfl⟩
  · exact Nat.zero_le _
  · exact hall new hnew hreach

/-- The length of a file of a CCC of whose slots `m` are in use. -/
def cccLength (ty : SimpletlvBufferType) (m : ℕ) : ℕ :=
  (half ty (cccBuffer fun _ => none)).length + urlSize ty * m + 2

/-- The buffer properties of a CCC of whose slots `m` are in use. -/
def cccLengths (m : ℕ) : Bytes :=
  [0x00] ++ ushort2lebytes (cccLength .tl m) ++ ushort2lebytes (cccLength .value m)

theorem FilledTo.length_file {slots : Fin maxPkiApplets → Option (ByteArr 16)} {m : ℕ}
    (h : FilledTo slots m) (hm : m ≤ maxPkiApplets) (ty : SimpletlvBufferType) :
    (halfFile ty (cccBuffer slots)).length = cccLength ty m := by
  rw [halfFile, List.length_append, length_half_cccBuffer ty h hm, length_ushort2lebytes,
    cccLength]
  omega

theorem FilledTo.reread {st : Statics} {m : ℕ} (h : FilledTo st.cccPkiSlots m)
    (stack : Fin maxPkiApplets → ByteArr 16) : FilledTo (st.reread stack).cccPkiSlots m :=
  fun i => by rw [← h i, Statics.reread, Option.isSome_map]

/-- What the creation of a CCC leaves in the statics. -/
theorem MadeOf.statics {certs : List (Bytes × VCardKey)} {st st' : Statics}
    {applets : List VCardApplet} (h : MadeOf emul certs st st' applets) {m : ℕ}
    (hslots : FilledTo st.cccPkiSlots m) (hm : m ≤ maxPkiApplets) :
    FilledTo st'.cccPkiSlots (max m certs.length)
      ∧ st'.cccBufferProperties.1 = cccLengths (max m certs.length) := by
  obtain ⟨-, ccc, -, -, hccc, -, -⟩ := h.built
  rw [cacNewCccApplet_eq st h.count] at hccc
  obtain ⟨-, rfl⟩ := Prod.mk.inj (Except.ok.inj hccc)
  have hfilled := hslots.fillSlots certs.length
  have hle : max m certs.length ≤ maxPkiApplets := Nat.max_le.2 ⟨hm, h.count⟩
  refine ⟨hfilled, ?_⟩
  rw [cccLengths, ← hfilled.length_file hle, ← hfilled.length_file hle]

/-- The CCC of a card, made when the slots were `slots`. -/
def cccPrivate (slots : Fin maxPkiApplets → Option (ByteArr 16)) (n : ℕ) : VCardAppletPrivate :=
  { tagBuffer := some (halfFile .tl (cccBuffer (fillSlots slots n)))
    valBuffer := some (halfFile .value (cccBuffer (fillSlots slots n)))
    properties := .cccLink, propertiesLen := 3, longPropertiesLen := 5
    coids := [[0xdb, 0x00]], u := .cccData }

theorem MadeOf.mem_ccc {certs : List (Bytes × VCardKey)} {st st' : Statics}
    {applets : List VCardApplet} (h : MadeOf emul certs st st' applets) :
    ⟨.cacCommonRead, none, cacCccAid, some (cccPrivate st.cccPkiSlots certs.length)⟩
      ∈ applets := by
  obtain ⟨pkis, ccc, containers, -, hccc, -, rfl⟩ := h.built
  rw [cacNewCccApplet_eq st h.count] at hccc
  obtain ⟨hccc, -⟩ := Prod.mk.inj (Except.ok.inj hccc)
  obtain rfl := Option.some.inj hccc
  exact List.mem_append_left _ (List.mem_append_right _ (List.mem_cons_of_mem _ List.mem_cons_self))

theorem MadeOf.reaches {certs : List (Bytes × VCardKey)} {st st' : Statics}
    {applets : List VCardApplet} (h : MadeOf emul certs st st' applets) :
    ReachesCcc emul certs := by
  obtain ⟨pkis, -, -, hpkis, -⟩ := h.built
  exact ⟨h.count, pkis, hpkis⟩

/-- The statics after the cards `news` were made. -/
structure StaticsOk (emul : Emul τ) (news : List (NewCard τ)) (st : Statics) (m : ℕ) : Prop where
  highest : Highest emul news m
  filled : FilledTo st.cccPkiSlots m
  lengths : (∃ new ∈ news, ReachesCcc emul new.certs) → st.cccBufferProperties.1 = cccLengths m

/-- A card that was made of `new` after `before`. -/
structure MadeCard (emul : Emul τ) (before : List (NewCard τ)) (new : NewCard τ)
    (card : VCard τ) : Prop where
  ok : CardOk card
  applets : ReachesCcc emul new.certs → ∃ st st' as m, MadeOf emul new.certs st st' as
    ∧ Highest emul before m ∧ FilledTo st.cccPkiSlots m
    ∧ card.applets.map VCardApplet.lasting = as.map VCardApplet.lasting

/-- What holds of a program that made the cards `news`, one after the other. -/
structure ProgramOk (emul : Emul τ) (news : List (NewCard τ)) (y : Program τ) : Prop where
  statics : ∃ m, StaticsOk emul news y.statics m
  length : y.cards.length = news.length
  cards : ∀ k new card, news[k]? = some new → y.cards[k]? = some card →
    MadeCard emul (news.take k) new card

theorem programOk_start : ProgramOk emul (made []) (Program.start : Program τ) :=
  ⟨⟨0, .nil, fun i => by simp [Program.start, Statics.initial], fun ⟨_, h, _⟩ => nomatch h⟩, rfl,
    fun _ _ _ h => nomatch h⟩

/-- A card is made: its CCC starts with the slots that were in use. -/
theorem makeCard_ok {news : List (NewCard τ)} {y : Program τ} {new : NewCard τ} {rv : VCardStatus}
    {card : VCard τ} {m : ℕ} (hst : StaticsOk emul news y.statics m)
    (h : y.makeCard emul digest new = .ok (rv, card)) :
    MadeCard emul news new card ∧ ∃ m', StaticsOk emul (news ++ [new]) card.statics m' := by
  have hok := (vcardEmulMakeCard_fresh h).cardOk
  have hfilled := hst.filled.reread new.stack
  have hm := hst.highest.le_max
  rcases vcardEmulMakeCard_cases h with ⟨-, hreach, hstatics, -⟩ | ⟨-, hmade⟩
  · refine ⟨⟨hok, fun h => absurd h hreach⟩, m, hst.highest.snoc_fail hreach, hstatics ▸ hfilled,
      ?_⟩
    rintro ⟨x, hx, hx'⟩
    rcases List.mem_append.1 hx with hx | hx
    · rw [hstatics]
      exact hst.lengths ⟨x, hx, hx'⟩
    · exact absurd (List.mem_singleton.1 hx ▸ hx') hreach
  · obtain ⟨hfilled', hlengths⟩ := hmade.statics hfilled hm
    exact ⟨⟨hok, fun _ => ⟨_, _, _, m, hmade, hst.highest, hfilled, rfl⟩⟩, _,
      hst.highest.snoc hmade.reaches, hfilled', fun _ => hlengths⟩

theorem Program.step_ok {ops : List (ProgramOp τ)} {y y' : Program τ} {op : ProgramOp τ}
    {reply : Option CardReply} (hy : ProgramOk emul (made ops) y)
    (h : y.step emul digest op = .ok (reply, y')) : ProgramOk emul (made (ops ++ [op])) y' := by
  obtain ⟨m, hst⟩ := hy.statics
  cases op with
  | make new =>
    simp only [step, bind_eq_ok, pure_eq, Except.ok.injEq, Prod.mk.injEq] at h
    obtain ⟨⟨rv, card⟩, hmake, -, rfl⟩ := h
    obtain ⟨hcard, hst'⟩ := makeCard_ok hst hmake
    have hmade : made (ops ++ [.make new]) = made ops ++ [new] := by simp [made]
    rw [hmade]
    refine ⟨hst', by simp [hy.length], fun k x c hx hc => ?_⟩
    rcases Nat.lt_trichotomy k (made ops).length with hk | rfl | hk
    · rw [List.getElem?_append_left hk] at hx
      rw [List.getElem?_append_left (by rwa [hy.length])] at hc
      rw [List.take_append_of_le_length (Nat.le_of_lt hk)]
      exact hy.cards k x c hx hc
    · rw [List.getElem?_concat_length] at hx
      rw [← hy.length, List.getElem?_concat_length] at hc
      obtain rfl := Option.some.inj hx
      obtain rfl := Option.some.inj hc
      rwa [List.take_left]
    · rw [List.getElem?_eq_none (by rw [List.length_append, List.length_singleton]; omega)] at hx
      cases hx
  | card k op =>
    have hmade : made (ops ++ [.card k op]) = made ops := by simp [made]
    rw [hmade]
    unfold step cardAt at h
    rcases hk : y.cards[k]? with _ | card
    · simp only [hk, Option.map_none] at h
      cases h
    · simp only [hk, Option.map_some, bind_eq_ok, pure_eq, Except.ok.injEq, Prod.mk.injEq] at h
      obtain ⟨⟨reply, card'⟩, hstep, -, rfl⟩ := h
      obtain ⟨new, hnew⟩ : ∃ new, (made ops)[k]? = some new := by
        have hlt := (List.getElem?_eq_some_iff.1 hk).1
        exact ⟨_, List.getElem?_eq_getElem (hy.length ▸ hlt)⟩
      have hcard := hy.cards k new card hnew hk
      have hok : CardOk { card with statics := y.statics } := ⟨hcard.ok.1, hcard.ok.2, hcard.ok.3⟩
      obtain ⟨hlasting, hslots, hshared⟩ := cardStep_lasting hok hstep
      refine ⟨⟨m, hst.highest, hslots ▸ hst.filled, fun hx => hshared ▸ hst.lengths hx⟩,
        by simp [hy.length], fun j x c hx hc => ?_⟩
      rcases eq_or_ne j k with rfl | hne
      · rw [List.getElem?_set_self (List.getElem?_eq_some_iff.1 hk).1] at hc
        obtain rfl := Option.some.inj hc
        obtain rfl := Option.some.inj (hx.symm.trans hnew)
        refine ⟨cardStep_cardOk hok hstep, fun hreach => ?_⟩
        obtain ⟨st, st', as, m', hmade, hhighest, hfilled, happlets⟩ := hcard.applets hreach
        exact ⟨st, st', as, m', hmade, hhighest, hfilled, hlasting.trans happlets⟩
      · rw [List.getElem?_set_ne hne.symm] at hc
        exact hy.cards j x c hx hc

/-- Every program there can be. -/
theorem programOk_of_run {ops : List (ProgramOp τ)} {y : Program τ}
    {replies : List (Option CardReply)}
    (h : run (Program.step emul digest) .start ops = .ok (replies, y)) :
    ProgramOk emul (made ops) y :=
  run_history (I := fun ops y => ProgramOk emul (made ops) y)
    (fun _ _ _ _ _ hy hstep => Program.step_ok hy hstep) programOk_start h

end Programs

section CccFiles

/-- The files of a card's CCC, and the slots they were made of, are the card's own if and only if
no card before it that got to its CCC applet had more certificates. -/
theorem cccFiles_right_iff {ops : List (ProgramOp τ)} {replies : List (Option CardReply)}
    {y : Program τ} (hrun : run (Program.step emul digest) .start ops = .ok (replies, y))
    {new : NewCard τ} {card : VCard τ} (hmake : y.makeCard emul digest new = .ok (.done, card)) :
    CccFilesRight new.certs.length card
      ↔ ∀ before ∈ made ops, ReachesCcc emul before.certs →
        before.certs.length ≤ new.certs.length := by
  obtain ⟨m, hst⟩ := (programOk_of_run hrun).statics
  rw [← hst.highest.le_iff]
  have hm := hst.highest.le_max
  have hfilled := hst.filled.reread new.stack
  rcases vcardEmulMakeCard_cases hmake with ⟨hrv, -⟩ | ⟨-, hmade⟩
  · cases hrv
  obtain ⟨i, hi⟩ := List.getElem?_of_mem hmade.mem_ccc
  have hfind : vcardFindApplet card.applets cacCccAid = some i := (Reachable.made hmake).find hi
  have hfiles := filesOf_cccEntries_iff hfilled hm hmade.count
  constructor
  · rintro ⟨⟨j, a, p, hj, ha, hp, hright⟩, -⟩
    obtain rfl := Option.some.inj (hfind.symm.trans hj)
    obtain rfl := Option.some.inj (hi.symm.trans ha)
    obtain rfl := Option.some.inj hp
    exact hfiles.1 hright
  · intro hmn
    refine ⟨⟨i, _, _, hfind, hi, rfl, hfiles.2 hmn⟩, fun j hj => ?_⟩
    have hslots := (hmade.statics hfilled hm).1
    rw [Nat.max_eq_right hmn] at hslots
    exact (hslots j).1 hj

/-- A card with these certificates, when the stack is zero. -/
def newCard (certs : List (Bytes × VCardKey)) : NewCard Unit :=
  ⟨(), certs, fun _ => ⟨List.replicate 16 0, rfl⟩⟩

/-- After the cards of a run one more is made, and passes a check. -/
def makesAfter (emul : Emul Unit) (check : VCard Unit → Bool) (ops : List (ProgramOp Unit))
    (new : NewCard Unit) : Bool :=
  match run (Program.step emul fun _ => none) .start ops with
  | .ok (_, y) => madeWith check (y.makeCard emul (fun _ => none) new)
  | .error _ => false

theorem exists_of_makesAfter {emul : Emul Unit} {check : VCard Unit → Bool}
    {ops : List (ProgramOp Unit)} {new : NewCard Unit} (h : makesAfter emul check ops new) :
    ∃ replies y card, run (Program.step emul fun _ => none) .start ops = .ok (replies, y)
      ∧ y.makeCard emul (fun _ => none) new = .ok (.done, card) ∧ check card := by
  unfold makesAfter at h
  split at h
  · obtain ⟨card, hmake, hcheck⟩ := exists_of_madeWith h
    exact ⟨_, _, card, ‹_›, hmake, hcheck⟩
  · cases h

theorem cccFiles_right_iff_growing : ∃ replies y card,
    run (Program.step (Emul.plain none nofun) fun _ => none) .start [.make (newCard [])]
        = .ok (replies, y)
      ∧ y.makeCard (Emul.plain none nofun) (fun _ => none) (newCard [([1, 2, 3], 0)])
        = .ok (.done, card)
      ∧ (CccFilesRight 1 card ↔ ∀ before ∈ made [.make (newCard [])],
        ReachesCcc (Emul.plain none nofun) before.certs → before.certs.length ≤ 1) := by
  obtain ⟨replies, y, card, hrun, hmake, -⟩ := exists_of_makesAfter (show makesAfter
    (Emul.plain none nofun) (fun _ => true) [.make (newCard [])] (newCard [([1, 2, 3], 0)]) by
      decide +kernel)
  exact ⟨replies, y, card, hrun, hmake, cccFiles_right_iff hrun hmake⟩

/-- After a card with one certificate, the CCC of a card without has a twelfth URL. -/
theorem cccFiles_after_larger : ∃ replies y card,
    run (Program.step (Emul.plain none nofun) fun _ => none) .start
        [.make (newCard [([1, 2, 3], 0)])] = .ok (replies, y)
      ∧ y.makeCard (Emul.plain none nofun) (fun _ => none) (newCard []) = .ok (.done, card)
      ∧ ¬ CccFilesRight 0 card := by
  obtain ⟨replies, y, card, hrun, hmake, hslot⟩ := exists_of_makesAfter (show makesAfter
    (Emul.plain none nofun) (fun card => (card.statics.cccPkiSlots ⟨0, by decide⟩).isSome)
    [.make (newCard [([1, 2, 3], 0)])] (newCard []) by decide +kernel)
  exact ⟨replies, y, card, hrun, hmake, fun h => absurd (h.slots _ hslot) (Nat.not_lt_zero _)⟩

end CccFiles

end Libcacard
