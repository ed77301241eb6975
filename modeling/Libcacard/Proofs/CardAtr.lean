import Libcacard.CardAtr
import Libcacard.Proofs.PendingReader
import Mathlib.Data.List.Forall2

/-!
# Which ATRs are real

A power-on that finds a card leaves the card's ATR in the buffer of the thread, and nothing else
writes there until it is sent. One that finds none leaves the buffer and its length as they were,
and they are sent.
-/

namespace Libcacard

open Machine

variable {γ : Type} {readers : CardReaders (CardSlots γ)} {reset : γ → γ} {s : AtrSystem γ}

section PowerOn

/-- There is room for the whole ATR of each card. -/
theorem vcardGetAtr_eq (card : InsertedCard γ) : vcardGetAtr card maxAtrLen = card.atr := by
  unfold vcardGetAtr InsertedCard.atr
  rcases card.vcardGetAtr with _ | ⟨_ | r⟩
  · decide
  · decide
  · rfl

theorem take_vreaderPowerOn {cards : CardSlots γ} {reader : ℕ} {card : InsertedCard γ}
    (h : cards reader = some card) (atr : ByteArr maxAtrLen) :
    (vreaderPowerOn reset cards reader atr maxAtrLen).2.2.1.1.take
      (vreaderPowerOn reset cards reader atr maxAtrLen).2.2.2 = card.atr := by
  have hsame : vcardGetAtr { card with state := reset card.state } maxAtrLen = card.atr :=
    vcardGetAtr_eq _
  rw [vreaderPowerOn, h]
  simp only [ByteArr.write, splice, List.take_zero, List.nil_append, List.take_left]
  exact hsame

theorem powerOn_eq (reset : γ → γ) (s : AtrSystem γ) (i reader : ℕ) : ∃ cards atr len,
    s.powerOn reset i reader = { s with
      system := { s.system with client := { s.system.client with world := cards } }
      atr := Function.update s.atr i atr
      poweredOn := Function.update s.poweredOn i (some ⟨reader, s.cards reader, len⟩) }
    ∧ ∀ card, s.cards reader = some card → atr.1.take len = card.atr :=
  ⟨_, _, _, rfl, fun _ hcard => take_vreaderPowerOn hcard _⟩

end PowerOn

theorem isAtr_iff {type : VSCMsgType} {readerId length : UInt32} {payload : Bytes}
    {about : Option ℕ} :
    Sent.IsAtr ⟨⟨type.value, readerId, length⟩, payload, about⟩ ↔ type = .atr := by
  rcases type <;> simp [Sent.IsAtr, VSCMsgType.value]

section Client

variable {σ : Type} {c c' : Client σ}

theorem atrs_sendMsg {type : VSCMsgType} (h : type ≠ .atr) (readerId : UInt32) (msg : Bytes)
    (about : Option ℕ) : (c.sendMsg type readerId msg about).atrs = c.atrs := by
  simp only [Client.atrs, Client.sendMsg, List.filter_append, List.filter_singleton, isAtr_iff, h,
    decide_false, cond_false, List.append_nil]

theorem atrs_sendMsg_atr (readerId : UInt32) (msg : Bytes) (about : Option ℕ) :
    (c.sendMsg .atr readerId msg about).atrs
      = c.atrs ++ [⟨⟨VSCMsgType.atr.value, 0, UInt32.ofNat msg.length⟩, msg, about⟩] := by
  simp only [Client.atrs, Client.sendMsg, List.filter_append, List.filter_singleton, isAtr_iff,
    decide_true, cond_true]

/-- A thread that has not got to a card's insertion sends no ATR. -/
theorem threadStep_atrs {atr : Bytes} {t t' : EventThread}
    (h : c.threadStep atr t = some (t', c')) (ht : t.inserted = none) : c'.atrs = c.atrs := by
  rcases t with _ | event | event | event | event | ⟨⟨type, reader⟩, readerId⟩ | ⟨event, readerId⟩
  · unfold Client.threadStep at h
    rcases hev : c.events with _ | ⟨event, events⟩ <;> rw [hev] at h <;> cases h
    rfl
  · simp only [Client.threadStep] at h
    split_ifs at h <;> cases h <;> rfl
  · simp only [Client.threadStep] at h
    split_ifs at h <;> cases h <;> rfl
  · simp only [Client.threadStep] at h
    split_ifs at h
    cases h
    rfl
  · simp only [Client.threadStep] at h
    split_ifs at h <;> cases h <;> rfl
  · rcases type <;> simp only [Client.threadStep] at h
    · split_ifs at h
      cases h
      rfl
    · cases h
      exact atrs_sendMsg (by decide) ..
    · cases ht
    · cases h
      exact atrs_sendMsg (by decide) ..
    · cases h
      rfl
  · cases h
    exact atrs_sendMsg (by decide) ..

/-- The client's answer to a message of the host is no ATR, and starts threads only. -/
theorem handle_atrs {σ : Type} {readers : CardReaders σ} {c c' : Client σ} {hd : VSCMsgHeader}
    {b : Bytes} {goesOn : Bool} (h : c.handle readers hd b = .ok (goesOn, c')) :
    c'.atrs = c.atrs ∧ ∃ l, c'.threads = c.threads ++ l := by
  have hsame : c.threads = c.threads ++ [] := (List.append_nil _).symm
  unfold Client.handle at h
  split_ifs at h
  · obtain ⟨command, -, h⟩ := bind_eq_ok.1 h
    cases h
    unfold Client.onApdu
    dsimp only
    split_ifs
    · exact ⟨atrs_sendMsg (by decide) .., [], hsame⟩
    · exact ⟨atrs_sendMsg (by decide) .., [], hsame⟩
  · cases h
    exact ⟨atrs_sendMsg (by decide) .., [], hsame⟩
  · obtain ⟨code, -, h⟩ := bind_eq_ok.1 h
    cases h
    refine ⟨?_, [], by rw [(onError_slot ..).1, List.append_nil]⟩
    unfold Client.onError
    split_ifs
    · split <;> rfl
    · rfl
    · rfl
  · obtain ⟨init, -, h⟩ := bind_eq_ok.1 h
    obtain ⟨r, -, h⟩ := bind_eq_ok.1 h
    rcases r with _ | init'
    · cases h
      exact ⟨rfl, [], hsame⟩
    · cases h
      exact ⟨atrs_sendMsg (by decide) vscardMinimalReaderId [] none, _, rfl⟩

end Client

theorem inserted_eq_some {i reader : ℕ} (h : s.inserted i = some reader) :
    ∃ id, s.system.client.threads[i]? = some (.forwarding ⟨.cardInsert, reader⟩ id) := by
  obtain ⟨t, ht, hreader⟩ := Option.bind_eq_some_iff.1 h
  unfold EventThread.inserted at hreader
  split at hreader
  · rename_i event id
    split_ifs at hreader with htype
    cases hreader
    exact ⟨id, by rw [ht, ← htype]⟩
  · cases hreader

/-- No other action sends an ATR, or takes a thread on that has got to a card's insertion. -/
theorem step_quiet {action : VscAction (CardSlots γ)} {system : VscSystem (CardSlots γ)}
    (hs : s.system.step readers action = some system) (h : s.mustPowerOn action = false) :
    system.client.atrs = s.system.client.atrs
      ∧ ∀ i reader, s.inserted i = some reader →
        system.client.threads[i]? = s.system.client.threads[i]? := by
  cases action with
  | event event | world world =>
    cases hs
    exact ⟨rfl, fun _ _ _ => rfl⟩
  | thread i atr =>
    simp only [VscSystem.step, Option.bind_eq_bind, Option.bind_eq_some_iff] at hs
    obtain ⟨t, ht, ⟨t', c⟩, hstep, hs⟩ := hs
    obtain rfl := Option.some.inj hs
    have hnone : s.inserted i = none := Option.not_isSome_iff_eq_none.1 (Bool.eq_false_iff.1 h)
    have hatrs : c.atrs = s.system.client.atrs := threadStep_atrs hstep (by
      rwa [AtrSystem.inserted, ht, Option.bind_some] at hnone)
    refine ⟨hatrs, fun j reader hj => ?_⟩
    have hne : i ≠ j := by
      rintro rfl
      rw [hnone] at hj
      cases hj
    simp only [(threadStep_progress hstep).threads, List.getElem?_set_ne hne]
  | answer readerId length buffer =>
    simp only [VscSystem.step, Option.bind_eq_bind, Option.bind_eq_some_iff] at hs
    obtain ⟨m, -, hs⟩ := hs
    split_ifs at hs <;> cases hs <;> exact ⟨rfl, fun _ _ _ => rfl⟩
  | send header buffer =>
    simp only [VscSystem.step] at hs
    split_ifs at hs
    cases hs
    exact ⟨rfl, fun _ _ _ => rfl⟩
  | receive =>
    unfold VscSystem.step at hs
    rcases hin : s.system.incoming with _ | ⟨m, incoming⟩ <;> rw [hin] at hs
    · cases hs
    simp only [] at hs
    rcases hhandle : s.system.client.handle readers m.header m.pbSendBuffer.1 with
      e | ⟨goesOn, c⟩ <;> rw [hhandle] at hs <;> cases hs
    obtain ⟨hatrs, l, hthreads⟩ := handle_atrs hhandle
    refine ⟨hatrs, fun i reader hi => ?_⟩
    obtain ⟨id, hid⟩ := inserted_eq_some hi
    simp only [hthreads]
    exact List.getElem?_append_left (List.getElem?_eq_some_iff.1 hid).1

theorem step_sendAtr {i reader : ℕ} (h : s.inserted i = some reader) (payload : Bytes) :
    ∃ system header, s.system.step readers (.thread i payload) = some system
      ∧ system.client.atrs = s.system.client.atrs ++ [⟨header, payload, some reader⟩]
      ∧ ∀ j ≠ i, system.client.threads[j]? = s.system.client.threads[j]? := by
  obtain ⟨id, hid⟩ := inserted_eq_some h
  refine ⟨{ s.system with
      client := { s.system.client.sendMsg .atr id payload (some reader) with
        threads := s.system.client.threads.set i .idle } },
    _, ?_, atrs_sendMsg_atr id payload (some reader), fun j hj => ?_⟩
  · simp only [VscSystem.step, hid, Option.bind_eq_bind, Option.bind_some, Client.threadStep]
    rfl
  · exact List.getElem?_set_ne hj.symm

section Invariant

/-- The message has the ATR of the card in the reader, if there was one. -/
def PowerOn.Left (p : PowerOn γ) (m : Sent) : Prop :=
  m.about = some p.reader ∧ ∀ card, p.card = some card → m.payload = card.atr

theorem PowerOn.gaveAtr_iff {p : PowerOn γ} {m : Sent} :
    p.GaveAtr m ↔ p.card ≠ none ∧ p.Left m := by
  constructor
  · rintro ⟨habout, card, hcard, hpayload⟩
    refine ⟨hcard ▸ Option.some_ne_none card, habout, fun card' hcard' => ?_⟩
    rw [hpayload, Option.some.inj (hcard.symm.trans hcard')]
  · rintro ⟨hcard, habout, hpayload⟩
    obtain ⟨card, hcard⟩ := Option.ne_none_iff_exists'.1 hcard
    exact ⟨habout, card, hcard, hpayload card hcard⟩

structure AtrSystem.Ok (s : AtrSystem γ) : Prop where
  sent : List.Forall₂ PowerOn.Left s.powerOns s.system.client.atrs
  poweredOn : ∀ i p, s.poweredOn i = some p → s.inserted i = some p.reader
    ∧ ∀ card, p.card = some card → (s.atr i).1.take p.atrLen = card.atr

/-- The ATRs are real whose power-on found a card. -/
theorem AtrSystem.Ok.real_iff (h : s.Ok) : s.AtrsReal ↔ ∀ p ∈ s.powerOns, p.card ≠ none := by
  have hiff : s.AtrsReal ↔
      List.Forall₂ (fun p m => p.card ≠ none ∧ p.Left m) s.powerOns s.system.client.atrs :=
    ⟨.imp fun _ _ => PowerOn.gaveAtr_iff.1, .imp fun _ _ => PowerOn.gaveAtr_iff.2⟩
  rw [hiff, List.forall₂_and_left]
  exact and_iff_left h.sent

theorem AtrSystem.Ok.not_real (h : s.Ok) (hnone : s.powerOns.any (·.card.isNone)) :
    ¬ s.AtrsReal := by
  rw [h.real_iff]
  intro hfound
  obtain ⟨p, hp, hcard⟩ := List.any_eq_true.1 hnone
  exact hfound p hp (Option.isNone_iff_eq_none.1 hcard)

theorem AtrSystem.start_ok (cards : CardSlots γ) (atr : ℕ → ByteArr maxAtrLen) :
    (AtrSystem.start cards atr).Ok :=
  ⟨.nil, nofun⟩

/-- What an action does. -/
inductive AtrProgress (reset : γ → γ) (s : AtrSystem γ) : AtrAction γ → AtrSystem γ → Prop
  | quiet {a : AtrAction γ} (system : VscSystem (CardSlots γ))
    (hpower : ∀ i, a = .powerOn i → s.powersOn i = none)
    (hsend : ∀ i, a = .sendAtr i → s.poweredOn i = none)
    (hatrs : system.client.atrs = s.system.client.atrs)
    (hthreads : ∀ i reader, s.inserted i = some reader →
      system.client.threads[i]? = s.system.client.threads[i]?) :
    AtrProgress reset s a { s with system := system }
  | power {i reader : ℕ} (h : s.powersOn i = some reader) :
    AtrProgress reset s (.powerOn i) (s.powerOn reset i reader)
  | send {i : ℕ} {p : PowerOn γ} (system : VscSystem (CardSlots γ)) (header : VSCMsgHeader)
    (h : s.poweredOn i = some p)
    (hatrs : system.client.atrs
      = s.system.client.atrs ++ [⟨header, (s.atr i).1.take p.atrLen, some p.reader⟩])
    (hthreads : ∀ j ≠ i, system.client.threads[j]? = s.system.client.threads[j]?) :
    AtrProgress reset s (.sendAtr i) { s with
      system := system
      poweredOn := Function.update s.poweredOn i none
      powerOns := s.powerOns ++ [p] }

/-- An action that is passed over. -/
theorem AtrProgress.passed {a : AtrAction γ} (hpower : ∀ i, a = .powerOn i → s.powersOn i = none)
    (hsend : ∀ i, a = .sendAtr i → s.poweredOn i = none) : AtrProgress reset s a s :=
  .quiet s.system hpower hsend rfl fun _ _ _ => rfl

theorem AtrProgress.other {a : AtrAction γ} {action : VscAction (CardSlots γ)}
    (hpower : ∀ i, a ≠ .powerOn i) (hsend : ∀ i, a ≠ .sendAtr i)
    (hm : s.mustPowerOn action = false) :
    AtrProgress reset s a ((s.other readers action).getD s) := by
  unfold AtrSystem.other
  rcases hs : s.system.step readers action with _ | system
  · exact .passed (fun i h => absurd h (hpower i)) fun i h => absurd h (hsend i)
  · obtain ⟨hatrs, hthreads⟩ := step_quiet hs hm
    exact .quiet system (fun i h => absurd h (hpower i)) (fun i h => absurd h (hsend i)) hatrs
      hthreads

theorem AtrSystem.Ok.progress (readers : CardReaders (CardSlots γ)) (reset : γ → γ) (h : s.Ok)
    (a : AtrAction γ) :
    AtrProgress reset s a (s.next readers reset a) := by
  cases a with
  | act action =>
    rcases hm : s.mustPowerOn action
    · rw [AtrSystem.next, AtrSystem.step, hm, if_neg Bool.false_ne_true]
      exact .other (by simp) (by simp) hm
    · rw [AtrSystem.next, AtrSystem.step, hm, if_pos rfl]
      exact .passed (by simp) (by simp)
  | insertCard reader card => exact .other (by simp) (by simp) rfl
  | queueCardEvent reader => exact .other (by simp) (by simp) rfl
  | powerOn i =>
    rcases hi : s.powersOn i with _ | reader
    · rw [AtrSystem.next, AtrSystem.step, hi]
      exact .passed (by simpa using hi) (by simp)
    · rw [AtrSystem.next, AtrSystem.step, hi]
      exact .power hi
  | sendAtr i =>
    rcases hi : s.poweredOn i with _ | p
    · rw [AtrSystem.next, AtrSystem.step, hi]
      exact .passed (by simp) (by simpa using hi)
    · obtain ⟨system, header, hs, hatrs, hthreads⟩ :=
        step_sendAtr (h.poweredOn i p hi).1 ((s.atr i).1.take p.atrLen)
      rw [AtrSystem.next, AtrSystem.step, hi, Option.bind_eq_bind, Option.bind_some, hs]
      exact .send system header hi hatrs hthreads

theorem powersOn_eq_some {i reader : ℕ} (h : s.powersOn i = some reader) :
    s.poweredOn i = none ∧ s.inserted i = some reader := by
  unfold AtrSystem.powersOn at h
  split_ifs at h with hnone
  exact ⟨Option.isNone_iff_eq_none.1 hnone, h⟩

theorem AtrProgress.ok {s' : AtrSystem γ} {a : AtrAction γ} (hp : AtrProgress reset s a s')
    (h : s.Ok) : s'.Ok := by
  cases hp with
  | quiet system hpower hsend hatrs hthreads =>
    refine ⟨by rw [hatrs]; exact h.sent, fun i p hi => ?_⟩
    obtain ⟨hinserted, hatr⟩ := h.poweredOn i p hi
    exact ⟨by rw [AtrSystem.inserted, hthreads i _ hinserted]; exact hinserted, hatr⟩
  | @power i reader hi =>
    obtain ⟨cards, atr, len, heq, hatr⟩ := powerOn_eq reset s i reader
    rw [heq]
    refine ⟨h.sent, fun j p hj => ?_⟩
    rcases eq_or_ne j i with rfl | hne
    · simp only [Function.update_self, Option.some.injEq] at hj ⊢
      subst hj
      exact ⟨(powersOn_eq_some hi).2, hatr⟩
    · simp only [Function.update_of_ne hne] at hj ⊢
      exact h.poweredOn j p hj
  | @send i p system header hi hatrs hthreads =>
    refine ⟨?_, fun j q hj => ?_⟩
    · rw [hatrs]
      exact List.rel_append h.sent (.cons ⟨rfl, (h.poweredOn i p hi).2⟩ .nil)
    · rcases eq_or_ne j i with rfl | hne
      · simp only [Function.update_self] at hj
        cases hj
      · simp only [Function.update_of_ne hne] at hj
        obtain ⟨hinserted, hatr⟩ := h.poweredOn j q hj
        exact ⟨by rw [AtrSystem.inserted, hthreads j hne]; exact hinserted, hatr⟩

theorem AtrSystem.Ok.run : ∀ {s : AtrSystem γ} (_ : s.Ok) (as : List (AtrAction γ)),
    (s.run readers reset as).Ok
  | _, h, [] => h
  | _, h, a :: as => ((h.progress readers reset a).ok h).run as

end Invariant

/-- The power-ons whose ATR was sent, or is sent in what is left of the run, have found a card. -/
def AtrSystem.Found (s : AtrSystem γ) (as : List (AtrAction γ)) : Prop :=
  (∀ p ∈ s.powerOns, p.card ≠ none)
    ∧ ∀ i p, s.poweredOn i = some p → .sendAtr i ∈ as → p.card ≠ none

section Found

variable {i reader : ℕ} {p : PowerOn γ} (as : List (AtrAction γ))

/-- What sends nothing takes nothing from what is left to send. -/
theorem found_cons_iff {a : AtrAction γ} (hsend : ∀ i, a = .sendAtr i → s.poweredOn i = none) :
    s.Found (a :: as) ↔ s.Found as := by
  constructor
  · rintro ⟨hsent, hawaited⟩
    exact ⟨hsent, fun i p hi hmem => hawaited i p hi (List.mem_cons_of_mem a hmem)⟩
  · rintro ⟨hsent, hawaited⟩
    refine ⟨hsent, fun i p hi hmem => ?_⟩
    rcases List.mem_cons.1 hmem with ha | hmem
    · rw [hsend i ha.symm] at hi
      cases hi
    · exact hawaited i p hi hmem

/-- A power-on is found out when its ATR is sent. -/
theorem found_powerOn_iff (hnone : s.poweredOn i = none) : (s.powerOn reset i reader).Found as
    ↔ s.Found as ∧ (.sendAtr i ∈ as → s.cards reader ≠ none) := by
  obtain ⟨cards, atr, len, heq, -⟩ := powerOn_eq reset s i reader
  rw [heq]
  constructor
  · rintro ⟨hsent, hawaited⟩
    refine ⟨⟨hsent, fun j p hj => hawaited j p ?_⟩, hawaited i _ (Function.update_self ..)⟩
    have hne : j ≠ i := by
      rintro rfl
      rw [hnone] at hj
      cases hj
    simp only [Function.update_of_ne hne]
    exact hj
  · rintro ⟨⟨hsent, hawaited⟩, hfinds⟩
    refine ⟨hsent, fun j p hj => ?_⟩
    rcases eq_or_ne j i with rfl | hne
    · simp only [Function.update_self, Option.some.injEq] at hj
      subst hj
      exact hfinds
    · simp only [Function.update_of_ne hne] at hj
      exact hawaited j p hj

theorem found_sendAtr_iff (system : VscSystem (CardSlots γ)) (hi : s.poweredOn i = some p) :
    ({ s with
      system := system
      poweredOn := Function.update s.poweredOn i none
      powerOns := s.powerOns ++ [p] } : AtrSystem γ).Found as ↔ s.Found (.sendAtr i :: as) := by
  constructor
  · rintro ⟨hsent, hawaited⟩
    simp only [List.forall_mem_append, List.forall_mem_singleton] at hsent
    refine ⟨hsent.1, fun j q hj hmem => ?_⟩
    rcases eq_or_ne j i with rfl | hne
    · rw [← Option.some.inj (hi.symm.trans hj)]
      exact hsent.2
    · refine hawaited j q ?_ ((List.mem_cons.1 hmem).resolve_left (by simpa using hne))
      simp only [Function.update_of_ne hne]
      exact hj
  · rintro ⟨hsent, hawaited⟩
    refine ⟨forall_mem_concat hsent (hawaited i p hi List.mem_cons_self), fun j q hj hmem => ?_⟩
    rcases eq_or_ne j i with rfl | hne
    · simp only [Function.update_self] at hj
      cases hj
    · simp only [Function.update_of_ne hne] at hj
      exact hawaited j q hj (List.mem_cons_of_mem _ hmem)

theorem AtrProgress.found_iff {s' : AtrSystem γ} {a : AtrAction γ}
    (hp : AtrProgress reset s a s') : s'.Found as ↔ s.Found (a :: as)
      ∧ ∀ i reader, a = .powerOn i → s.powersOn i = some reader → .sendAtr i ∈ as →
        s.cards reader ≠ none := by
  cases hp with
  | quiet system hpower hsend =>
    rw [found_cons_iff as hsend]
    refine (and_iff_left fun i reader ha hi => ?_).symm
    rw [hpower i ha] at hi
    cases hi
  | @power i reader hi =>
    rw [found_powerOn_iff as (powersOn_eq_some hi).1, found_cons_iff as (by simp)]
    refine and_congr_right fun _ => ⟨fun hfinds j reader' ha hj => ?_, fun h => h i reader rfl hi⟩
    cases ha
    obtain rfl := Option.some.inj (hi.symm.trans hj)
    exact hfinds
  | send system header hi =>
    rw [found_sendAtr_iff as system hi]
    exact (and_iff_left (by simp)).symm

end Found

/-- Each ATR of a run is real just if its power-on finds a card. -/
theorem run_atrsReal_iff : ∀ {s : AtrSystem γ} (as : List (AtrAction γ)), s.Ok →
    ((s.run readers reset as).AtrsReal ↔ s.Found as ∧ s.PowerOnsFind readers reset as)
  | s, [], h => by
    rw [AtrSystem.run, List.foldl_nil, h.real_iff]
    exact ⟨fun hfound => ⟨⟨hfound, nofun⟩, trivial⟩, fun hfound => hfound.1.1⟩
  | s, a :: as, h => by
    have hp := h.progress readers reset a
    rw [AtrSystem.run, List.foldl_cons, ← AtrSystem.run, run_atrsReal_iff as (hp.ok h),
      hp.found_iff as, and_assoc]
    rfl

/-- Each `VSC_ATR` is real just if a card is in the reader when the event of the insertion is
processed. -/
theorem atrsReal_iff (readers : CardReaders (CardSlots γ)) (reset : γ → γ) (cards : CardSlots γ)
    (atr : ℕ → ByteArr maxAtrLen) (as : List (AtrAction γ)) :
    ((AtrSystem.start cards atr).run readers reset as).AtrsReal
      ↔ (AtrSystem.start cards atr).PowerOnsFind readers reset as := by
  rw [run_atrsReal_iff as (AtrSystem.start_ok cards atr)]
  exact and_iff_right ⟨nofun, nofun⟩

section TooSoon

/-- An action of a program that holds nothing, taken while there are no cards. -/
def withoutCards : VscAction Unit → AtrAction Unit
  | .event event => .act (.event event)
  | .world _ => .act (.world fun _ => none)
  | .thread i atr => .act (.thread i atr)
  | .answer readerId length buffer => .act (.answer readerId length buffer)
  | .send header buffer => .act (.send header buffer)
  | .receive => .act .receive

/-- The host accepts the reader 0. A card is inserted into it, and removed before the thread takes
the event of the insertion. -/
def removedTooSoon : List (AtrAction Unit) :=
  (connect ++ success ++ addReader ++ success).map withoutCards
    ++ [.insertCard 0 (some ⟨(), some .cac⟩), .queueCardEvent 0, .insertCard 0 none,
      .queueCardEvent 0, .act (.thread 0 []), .act (.thread 0 []), .powerOn 0, .sendAtr 0]

theorem removedCard_atr :
    ¬ ((AtrSystem.start (fun _ => none) fun _ => ⟨List.replicate maxAtrLen 0, rfl⟩).run
      ⟨fun cards _ _ _ => (.noCard, [], cards)⟩ id removedTooSoon).AtrsReal :=
  ((AtrSystem.start_ok ..).run _).not_real (by decide +kernel)

end TooSoon

end Libcacard
