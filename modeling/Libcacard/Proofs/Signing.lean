import Libcacard.Proofs.EveryCommand
import Libcacard.Proofs.Frame
import Libcacard.Signing

/-!
# Parts are signed as one input

The input of a PKI applet is the chunks it was sent, whatever other commands the card processed in
between, as long as its length is an `int`.
-/

namespace Libcacard

open Machine

variable {τ : Type} {emul : Emul τ} {card : VCard τ} {apdu : VCardAPDU} {i : ℕ} {aid : Bytes}
  {key : VCardKey} {input : Bytes} {p : VCardAppletPrivate}

/-- Applet `i` has collected the input. -/
structure Collected (card : VCard τ) (aid : Bytes) (i : ℕ) (key : VCardKey) (input : Bytes) :
    Prop where
  cardOk : CardOk card
  applet : ∃ p, card.applets[i]? = some ⟨.cacPki, some .pki, aid, some p⟩
    ∧ p.u = .pkiData input key

theorem Collected.hasInput (h : Collected card aid i key input) : HasInput card i key input := by
  obtain ⟨p, ha, hu⟩ := h.applet
  exact ⟨_, p, ha, rfl, rfl, hu⟩

section OneCommand

/-- What the handler of the applet answers is what the card answers. -/
theorem vcardProcessApdu_pki {input' : Bytes} {reply : VCardResponse × Session τ}
    (hok : CardOk card) (hi : card.currentApplet apdu.channel = some i)
    (ha : card.applets[i]? = some ⟨.cacPki, some .pki, aid, some p⟩)
    (h : cacAppletPkiProcessApdu card.statics.cccBufferProperties emul p
      (card.start apdu).toSession apdu
      = .ok (.answer { p with u := .pkiData input' key } reply)) :
    ∃ r, vcardProcessApdu emul card apdu = .ok r ∧ r.response = some reply.1
      ∧ r.card.toSession = reply.2 ∧ r.card.currentApplet = card.currentApplet
      ∧ Collected r.card aid i key input' := by
  have hrun : VCardProcessAPDU.cacPki.run emul card.statics (some p) (card.start apdu).toSession
      apdu = .ok (.answer { p with u := .pkiData input' key } reply, card.statics) := by
    simp only [VCardProcessAPDU.run, assertPrivate, ok_bind, h, pure_eq]
  have hprocess := vcardProcessApdu_of_run hi ha hrun
  have hlt := (List.getElem?_eq_some_iff.1 ha).1
  exact ⟨_, hprocess, rfl, rfl, rfl, cardStep_cardOk hok (cardStep_apdu hprocess), _,
    List.getElem?_set_self hlt, rfl⟩

theorem rsaOps_eq_nil {calls : List Call} (h : ∀ c ∈ calls, ∀ key input, c ≠ .rsaOp key input) :
    rsaOps calls = [] := by
  rw [rsaOps, List.filterMap_eq_nil_iff]
  intro c hc
  cases c with
  | rsaOp key input => exact absurd rfl (h _ hc key input)
  | response | login | readObject => rfl

/-- An answer has no operation done. -/
theorem Answered.rsaOps_eq {s : Session τ} {aLe : ℕ} {a : VCardResponse × Session τ}
    (h : Answered s aLe a) : rsaOps a.2.calls = rsaOps s.calls := by
  cases h with
  | status | statusBytes => rfl
  | payload payload status =>
    have hlog : rsaOps (s.calls ++ [.response payload aLe]) = rsaOps s.calls := by
      rw [rsaOps, List.filterMap_append]
      exact List.append_nil _
    unfold respond
    split_ifs <;> exact hlog

/-- A chunk is taken. -/
theorem vcardProcessApdu_chunk (h : Collected card aid i key input) (hsigns : SignsTo i card apdu)
    (hP1 : apdu.aP1 = 0x80) (hlen : input.length + apdu.aLc < 2 ^ 31) :
    ∃ r, vcardProcessApdu emul card apdu = .ok r
      ∧ r.response = some (vcardMakeResponse Status.success) ∧ rsaOps r.card.calls = []
      ∧ r.card.currentApplet = card.currentApplet
      ∧ Collected r.card aid i key (input ++ apdu.body) := by
  obtain ⟨p, ha, hu⟩ := h.applet
  obtain ⟨r, hr, hresp, hsession, hcurrent, hcollected⟩ := vcardProcessApdu_pki h.cardOk hsigns.2 ha
    (@pkiProcessApdu_collect _ _ emul _ _ _ _ _ hu hsigns.1 hP1 hlen)
  refine ⟨r, hr, hresp, ?_, hcurrent, hcollected⟩
  exact congrArg (fun s => rsaOps s.calls) hsession

/-- The last chunk has one operation done on the whole input. -/
theorem vcardProcessApdu_last (h : Collected card aid i key input) (hsigns : SignsTo i card apdu)
    (hP1 : apdu.aP1 = 0x00) (hlen : input.length + apdu.aLc < 2 ^ 31) :
    ∃ r, vcardProcessApdu emul card apdu = .ok r
      ∧ rsaOps r.card.calls = [(key, input ++ apdu.body)] ∧ Collected r.card aid i key [] := by
  obtain ⟨p, ha, hu⟩ := h.applet
  obtain ⟨reply, hreply, hans⟩ := @pkiProcessApdu_operate τ card.statics.cccBufferProperties emul p
    (card.start apdu).toSession apdu _ _ hu hsigns.1 hP1 hlen
  obtain ⟨r, hr, -, hsession, -, hcollected⟩ := vcardProcessApdu_pki h.cardOk hsigns.2 ha hreply
  refine ⟨r, hr, ?_, hcollected⟩
  rw [hsession, hans.rsaOps_eq]
  rfl

/-- An unknown P1 drops it. -/
theorem vcardProcessApdu_drop (h : Collected card aid i key input) (hsigns : SignsTo i card apdu)
    (hP1 : apdu.aP1 ≠ 0x80) (hP1' : apdu.aP1 ≠ 0x00) (hlen : input.length + apdu.aLc < 2 ^ 31) :
    ∃ r, vcardProcessApdu emul card apdu = .ok r ∧ rsaOps r.card.calls = []
      ∧ Collected r.card aid i key [] := by
  obtain ⟨p, ha, hu⟩ := h.applet
  obtain ⟨r, hr, -, hsession, -, hcollected⟩ := vcardProcessApdu_pki h.cardOk hsigns.2 ha
    (@pkiProcessApdu_drop _ _ emul _ _ _ _ _ hu hsigns.1 hP1 hP1' hlen)
  exact ⟨r, hr, congrArg (fun s => rsaOps s.calls) hsession, hcollected⟩

theorem vcardProcessApdu_signs (h : Collected card aid i key input) (hsigns : SignsTo i card apdu)
    (hlen : input.length + apdu.aLc < 2 ^ 31) :
    ∃ r, vcardProcessApdu emul card apdu = .ok r
      ∧ (apdu.aP1 = 0x80 → r.response = some (vcardMakeResponse Status.success)
        ∧ rsaOps r.card.calls = [] ∧ Collected r.card aid i key (input ++ apdu.body))
      ∧ (apdu.aP1 = 0x00 → rsaOps r.card.calls = [(key, input ++ apdu.body)])
      ∧ (apdu.aP1 ≠ 0x80 → Collected r.card aid i key []) := by
  by_cases hchunk : apdu.aP1 = 0x80
  · obtain ⟨r, hr, hresp, hops, -, hcollected⟩ := vcardProcessApdu_chunk h hsigns hchunk hlen
    refine ⟨r, hr, fun _ => ⟨hresp, hops, hcollected⟩, fun h0 => ?_, fun hne => absurd hchunk hne⟩
    exact absurd (hchunk.symm.trans h0) (by decide)
  · by_cases hlast : apdu.aP1 = 0x00
    · obtain ⟨r, hr, hops, hcollected⟩ := vcardProcessApdu_last h hsigns hlast hlen
      exact ⟨r, hr, fun h80 => absurd h80 hchunk, fun _ => hops, fun _ => hcollected⟩
    · obtain ⟨r, hr, -, hcollected⟩ := vcardProcessApdu_drop h hsigns hchunk hlast hlen
      exact ⟨r, hr, fun h80 => absurd h80 hchunk, fun h0 => absurd h0 hlast, fun _ => hcollected⟩

theorem vcardProcessApdu_signs_overflow (h : Collected card aid i key input)
    (hsigns : SignsTo i card apdu) (hlen : 2 ^ 31 ≤ input.length + apdu.aLc) :
    vcardProcessApdu emul card apdu = .error .overflow := by
  obtain ⟨p, ha, hu⟩ := h.applet
  refine vcardProcessApdu_error ?_
  rw [vcardProcessAppletApdu_some emul (card.start apdu) hsigns.2 ha]
  simp only [VCardProcessAPDU.run, assertPrivate, ok_bind,
    pkiProcessApdu_overflow hu hsigns.1 hlen]
  rfl

theorem length_lt_of_signs {r : Processed τ} (h : Collected card aid i key input)
    (hsigns : SignsTo i card apdu) (hr : vcardProcessApdu emul card apdu = .ok r) :
    input.length + apdu.aLc < 2 ^ 31 := by
  by_contra hlen
  rw [vcardProcessApdu_signs_overflow h hsigns (Nat.le_of_not_lt hlen)] at hr
  cases hr

/-- Other commands leave the input alone, and have no operation done with the applet's key. -/
theorem vcardProcessApdu_other {r : Processed τ} (h : Collected card aid i key input)
    (hselects : ¬ apdu.Selects aid) (hsigns : ¬ SignsTo i card apdu)
    (hr : vcardProcessApdu emul card apdu = .ok r) :
    Collected r.card aid i key input
      ∧ (card.currentApplet apdu.channel = some i → rsaOps r.card.calls = []) := by
  obtain ⟨p, ha, hu⟩ := h.applet
  have hok := cardStep_cardOk h.cardOk (cardStep_apdu hr)
  have hstill : ∀ (s : Session τ) p' s', card.currentApplet apdu.channel = some i →
      ¬ Handling emul apdu p s .cacPki p' s' := by
    intro s p' s' hi hhandling
    cases hhandling with
    | collect _ h | operate _ h | drop _ h => exact hsigns ⟨h, hi⟩
  rcases vcardProcessApdu_step h.cardOk with ⟨r', hr', hstep, -⟩ | ⟨he, -⟩
  swap
  · rw [he] at hr
    cases hr
  obtain rfl := Except.ok.inj (hr.symm.trans hr')
  refine ⟨⟨hok, p, ?_, hu⟩, fun hi => rsaOps_eq_nil fun c hc key' input' heq => ?_⟩
  · rcases hstep.applet_at (by exact ha) hselects with h | ⟨q, p', s', hi, hq, hhandling, -⟩
    · exact h
    · obtain rfl := Option.some.inj hq
      exact absurd hhandling (hstill _ _ _ hi)
  · rcases hstep.mem_calls rfl hc with ⟨_, _, h⟩ | ⟨_, _, h⟩ | ⟨j, b, q, p', s', hj, hb, hq, h, -⟩
    · rw [heq] at h
      cases h
    · rw [heq] at h
      cases h
    · obtain rfl : i = j := Option.some.inj (hi.symm.trans hj)
      obtain rfl := Option.some.inj (ha.symm.trans hb)
      obtain rfl := Option.some.inj hq
      exact hstill _ _ _ hi h

end OneCommand

section AllOfThem

/-- A PKI applet that is selected has no input. -/
theorem collected_selected {r : Processed τ} (hok : CardOk card) (hkey : HasInput card i key input)
    (hi : vcardFindApplet card.applets aid = some i) (hselects : apdu.Selects aid)
    (hr : vcardProcessApdu emul card apdu = .ok r) : Collected r.card aid i key [] := by
  obtain ⟨a, p, ha, hprocess, hp, hu⟩ := hkey
  obtain ⟨b, hb, haid⟩ := vcardFindApplet_eq_some hi
  obtain rfl := Option.some.inj (ha.symm.trans hb)
  obtain ⟨response, s, hr', -⟩ := @vcardProcessApdu_select _ emul _ _ hok _ _ _ hselects hi ha
  obtain rfl := Except.ok.inj (hr.symm.trans hr')
  have hlt := (List.getElem?_eq_some_iff.1 ha).1
  refine ⟨cardStep_cardOk hok (cardStep_apdu hr), { p with u := .pkiData [] key }, ?_, rfl⟩
  refine (List.getElem?_set_self hlt).trans ?_
  cases (hok.applets a (List.mem_of_getElem? ha)).1 with
  | pki h hu' =>
    obtain rfl := Option.some.inj hp
    obtain rfl := haid
    simp only [VCardApplet.clear, hu]
  | commonRead | aca | passthrough | gp | msft => cases hprocess

theorem Collecting.collected {digest : Bytes → Option Bytes} {xs : List Bytes}
    {ops : List (VCardKey × Bytes)} (h : Collecting emul digest aid i key xs ops card) :
    Collected card aid i key xs.flatten ∧ ops = [] := by
  induction h with
  | selected hcard hkey hi hselects hr =>
    exact ⟨collected_selected hcard.cardOk hkey hi hselects hr, rfl⟩
  | statics _ st ih =>
    obtain ⟨⟨hok, happlet⟩, hops⟩ := ih
    exact ⟨⟨⟨hok.type, hok.applets, hok.current⟩, happlet⟩, hops⟩
  | other _ hselects hsigns hr ih =>
    obtain ⟨hcollected, hops⟩ := vcardProcessApdu_other ih.1 hselects hsigns hr
    refine ⟨hcollected, ?_⟩
    rw [ih.2, List.nil_append]
    split_ifs with hi
    · exact hops hi
    · rfl
  | chunk _ hsigns hP1 hr ih =>
    obtain ⟨r, hr', hchunk, -, -⟩ :=
      vcardProcessApdu_signs ih.1 hsigns (length_lt_of_signs ih.1 hsigns hr)
    obtain rfl := Except.ok.inj (hr.symm.trans hr')
    obtain ⟨-, hops, hcollected⟩ := hchunk hP1
    rw [List.flatten_append, List.flatten_singleton, ih.2, hops]
    exact ⟨hcollected, rfl⟩
  | finished _ hsigns hP1 hr ih =>
    obtain ⟨r, hr', -, -, hrest⟩ :=
      vcardProcessApdu_signs ih.1 hsigns (length_lt_of_signs ih.1 hsigns hr)
    obtain rfl := Except.ok.inj (hr.symm.trans hr')
    exact ⟨hrest hP1, rfl⟩

/-- In every run the parts are one input just as long as its length is an `int`. -/
theorem signing_iff {digest : Bytes → Option Bytes} {xs : List Bytes}
    {ops : List (VCardKey × Bytes)} (h : Collecting emul digest aid i key xs ops card)
    (hsigns : SignsTo i card apdu) :
    SignsAsOne emul card i key xs ops apdu ↔ xs.flatten.length + apdu.aLc < 2 ^ 31 := by
  obtain ⟨hcollected, rfl⟩ := h.collected
  constructor
  · rintro ⟨r, hr, -⟩
    exact length_lt_of_signs hcollected hsigns hr
  · intro hlen
    obtain ⟨r, hr, hchunk, hlast, hrest⟩ := vcardProcessApdu_signs hcollected hsigns hlen
    exact ⟨r, hr, fun h80 => ⟨(hchunk h80).1, (hchunk h80).2.1⟩, hlast,
      fun hne => (hrest hne).hasInput⟩

/-- Any number of equal chunks that fit can be sent. -/
theorem exists_collecting {digest : Bytes → Option Bytes} {xs : List Bytes}
    {ops : List (VCardKey × Bytes)} (h : Collecting emul digest aid i key xs ops card)
    (hsigns : SignsTo i card apdu) (hP1 : apdu.aP1 = 0x80) : ∀ n : ℕ,
    xs.flatten.length + n * apdu.aLc < 2 ^ 31 →
    ∃ card', SignsTo i card' apdu
      ∧ Collecting emul digest aid i key (xs ++ List.replicate n apdu.body) [] card'
  | 0, _ => by
    obtain ⟨-, rfl⟩ := h.collected
    exact ⟨card, hsigns, by rwa [List.replicate_zero, List.append_nil]⟩
  | n + 1, hlen => by
    rw [Nat.add_mul, Nat.one_mul] at hlen
    obtain ⟨card', hsigns', h'⟩ := exists_collecting h hsigns hP1 n (by omega)
    have hbytes : (xs ++ List.replicate n apdu.body).flatten.length
        = xs.flatten.length + n * apdu.aLc := by
      simp [apdu.length_body]
    obtain ⟨r, hr, -, hops, hcurrent, -⟩ :=
      @vcardProcessApdu_chunk _ emul _ _ _ _ _ _ h'.collected.1 hsigns' hP1 (by omega)
    have hchunk := h'.chunk hsigns' hP1 hr
    rw [hops, List.append_nil, List.append_assoc, ← List.replicate_succ'] at hchunk
    exact ⟨r.card, ⟨hsigns.1, by rw [hcurrent]; exact hsigns'.2⟩, hchunk⟩

/-- The key of the PKI applet with an AID. -/
def keyOf (aid : Bytes) (card : VCard τ) : Option VCardKey := do
  let i ← vcardFindApplet card.applets aid
  let a ← card.applets[i]?
  let p ← a.appletPrivate
  if a.processApdu = .cacPki then
    match p.u with
    | .pkiData _ key => some key
    | _ => none
  else none

theorem exists_of_keyOf (h : keyOf aid card = some key) : ∃ i input,
    vcardFindApplet card.applets aid = some i ∧ HasInput card i key input := by
  simp only [keyOf, Option.bind_eq_bind, Option.bind_eq_some_iff] at h
  obtain ⟨i, hi, a, ha, p, hp, h⟩ := h
  split_ifs at h with hprocess
  split at h
  · rename_i input key' hu
    obtain rfl := Option.some.inj h
    exact ⟨i, input, hi, a, p, ha, hprocess, hp, hu⟩
  · cases h

/-- A card with one certificate, whose PKI applet is selected. -/
theorem exists_selectedPki : ∃ card i, card.currentApplet selectPki.channel = some i
    ∧ Collecting (Emul.plain none nofun) (fun _ => none) selectPki.body i 0 [] [] card := by
  obtain ⟨card, hmade, hcheck⟩ := exists_of_madeWith (show madeWith
    (fun card => keyOf selectPki.body card = some 0)
    (vcardEmulMakeCard (Emul.plain none nofun) (fun _ => none) () .initial [([1, 2, 3], 0)]) by
      decide +kernel)
  obtain ⟨i, input, hi, hkey⟩ := exists_of_keyOf (of_decide_eq_true hcheck)
  obtain ⟨a, -, ha, -⟩ := id hkey
  have hcard := Reachable.made hmade
  have hselects : selectPki.Selects selectPki.body := by decide
  obtain ⟨response, s, hr, -⟩ := @vcardProcessApdu_select _ (Emul.plain none nofun) card selectPki
    hcard.cardOk _ _ _ hselects hi ha
  have hcurrent : Function.update card.currentApplet selectPki.channel (some i) selectPki.channel
      = some i := Function.update_self ..
  exact ⟨_, i, hcurrent, .selected hcard hkey hi hselects hr⟩

theorem signing_iff_three : ∃ card i,
    Collecting (Emul.plain none nofun) (fun _ => none) selectPki.body i 0 [[0x01, 0x02]] [] card
      ∧ (SignsAsOne (Emul.plain none nofun) card i 0 [[0x01, 0x02]] [] signLast
        ↔ [[0x01, 0x02]].flatten.length + signLast.aLc < 2 ^ 31) := by
  obtain ⟨card, i, hi, h⟩ := exists_selectedPki
  have hsigns : SignsTo i card signPart := ⟨by decide, hi⟩
  obtain ⟨card', hsigns', h'⟩ := exists_collecting h hsigns rfl 1 (by decide)
  exact ⟨card', i, h', signing_iff h' ⟨by decide, hsigns'.2⟩⟩

/-- 32769 chunks of 65535 bytes are not taken. -/
theorem signing_overflows : ∃ xs card i apdu,
    Collecting (Emul.plain none nofun) (fun _ => none) selectPki.body i 0 xs [] card
      ∧ xs = List.replicate 32768 (List.replicate 65535 0x00) ∧ SignsTo i card apdu
      ∧ apdu.aP1 = 0x80 ∧ apdu.body = List.replicate 65535 0x00
      ∧ ¬ SignsAsOne (Emul.plain none nofun) card i 0 xs [] apdu := by
  obtain ⟨card, i, hi, h⟩ := exists_selectedPki
  have hlen : (List.replicate 65535 (0x00 : UInt8)).length = 65535 := List.length_replicate
  obtain ⟨apdu, hCla, hIns, hP1, hP2, -, hbody⟩ := VCardAPDU.exists_of_form 0x80
    Ins.cacSignDecrypt 0x80 0x00
    (show (LengthForm.case3E (List.replicate 65535 0x00)).Wf from ⟨by omega, by omega⟩)
  have hbody : apdu.body = List.replicate 65535 0x00 := hbody
  have hLc : apdu.aLc = 65535 := by rw [← apdu.length_body, hbody, hlen]
  have hchannel : apdu.channel = selectPki.channel := Fin.ext (by
    change (vcardApduSetClass apdu.aCla).aChannel = _
    rw [hCla]
    rfl)
  have hsigns : SignsTo i card apdu := ⟨⟨hIns, hP2⟩, by rw [hchannel]; exact hi⟩
  obtain ⟨card', hsigns', h'⟩ := exists_collecting h hsigns hP1 32768 (by rw [hLc]; decide)
  rw [List.nil_append] at h'
  refine ⟨_, card', i, apdu, h', by rw [hbody], hsigns', hP1, hbody, fun hone => ?_⟩
  obtain ⟨r, hr, -⟩ := hone
  have hlt := length_lt_of_signs h'.collected.1 hsigns' hr
  rw [List.length_flatten, List.map_replicate, apdu.length_body, hLc, List.sum_replicate_nat] at hlt
  exact absurd hlt (by decide)

end AllOfThem

end Libcacard
