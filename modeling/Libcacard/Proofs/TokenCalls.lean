import Libcacard.Proofs.Login
import Libcacard.Proofs.Signing
import Libcacard.Proofs.TokenUse

/-!
# Which calls a token can get

The applets of a card have the keys of the card's own certificates and the labels of its two
objects, and never get others. So a card logs in only with what VERIFY has, has an operation done
only for SIGN/DECRYPT, with the key of the selected applet, and reads an object only for READ
BUFFER.
-/

namespace Libcacard

open Machine

variable {τ : Type} {emul : Emul τ} {certs : List (Bytes × VCardKey)} {u : CardUse τ}

section OfCard

theorem mem_modify {α : Type} {l : List α} {i : ℕ} {f : α → α} {a : α} (h : a ∈ l.modify i f) :
    a ∈ l ∨ ∃ b, l[i]? = some b ∧ a = f b := by
  obtain ⟨j, hj⟩ := List.getElem?_of_mem h
  rw [List.getElem?_modify] at hj
  obtain ⟨b, hb, hab⟩ := Option.map_eq_some_iff.1 hj
  by_cases hij : i = j
  · subst hij
    rw [if_pos rfl] at hab
    exact .inr ⟨b, hb, hab.symm⟩
  · rw [if_neg hij] at hab
    exact .inl (List.mem_of_getElem? (hab ▸ hb))

theorem CardUse.OfCerts.put (h : u.OfCerts certs) {i : ℕ} {aid : Bytes} {use use' : AppletUse}
    (hi : u.applets[i]? = some (aid, use)) (huse : use'.OfCerts certs aid) :
    (u.put i use').OfCerts certs := by
  intro a ha
  rcases mem_modify ha with ha | ⟨b, hb, rfl⟩
  · exact h a ha
  · obtain rfl := Option.some.inj (hi.symm.trans hb)
    exact huse

theorem AppletUse.OfCerts.clear {aid : Bytes} {use : AppletUse} (h : use.OfCerts certs aid) :
    use.clear.OfCerts certs aid := by
  cases use with
  | nothing | signs | reads => exact h

theorem CardUse.OfCerts.select (h : u.OfCerts certs) (channel : Fin maxChannel) (aid : Bytes) :
    (u.select channel aid).OfCerts certs := by
  intro a ha
  unfold CardUse.select at ha
  rcases hfind : u.find aid with _ | i
  · simp only [hfind] at ha
    exact h a ha
  · simp only [hfind] at ha
    rcases mem_modify ha with ha | ⟨b, hb, rfl⟩
    · exact h a ha
    · exact (h b (List.mem_of_getElem? hb)).clear

theorem current_eq_some {channel : Fin maxChannel} {i : ℕ} {use : AppletUse}
    (h : u.current channel = some (i, use)) :
    u.selected channel = some i ∧ ∃ aid, u.applets[i]? = some (aid, use) := by
  simp only [CardUse.current, Option.bind_eq_some_iff, Option.map_eq_some_iff, Prod.mk.injEq] at h
  obtain ⟨j, hj, ⟨aid, use'⟩, ha, rfl, rfl⟩ := h
  exact ⟨hj, aid, ha⟩

end OfCard

section OneStep

/-- What a step leaves and has called: the card's own. -/
structure Keeps (certs : List (Bytes × VCardKey)) (u : CardUse τ) (op : CardUse.Op τ)
    (r : List Call × CardUse τ) : Prop where
  ofCerts : r.2.OfCerts certs
  allowed : ∀ c ∈ r.1, u.Allowed certs op c

theorem Keeps.quiet {op : CardUse.Op τ} {v : CardUse τ} (h : v.OfCerts certs) :
    Keeps certs u op ([], v) := ⟨h, by simp⟩

theorem iso_keeps (h : u.OfCerts certs) (apdu : VCardAPDU) :
    Keeps certs u (.card (.apdu apdu)) (u.iso emul apdu) := by
  unfold CardUse.iso
  split_ifs with hpin hasks hselects
  · refine ⟨h, fun c hc => ?_⟩
    rw [List.mem_singleton.1 hc]
    exact ⟨apdu, rfl, hpin, rfl⟩
  · exact .quiet h
  · exact .quiet (h.select _ _)
  · exact .quiet h

theorem sign_keeps (h : u.OfCerts certs) {apdu : VCardAPDU} (hsigns : apdu.Signs) {i : ℕ}
    {key : VCardKey} {input : Bytes} (hi : u.current apdu.channel = some (i, .signs key input)) :
    Keeps certs u (.card (.apdu apdu)) (u.sign emul apdu i key input) := by
  obtain ⟨hselected, aid, ha⟩ := current_eq_some hi
  obtain ⟨n, cert, hn, rfl⟩ := h _ (List.mem_of_getElem? ha)
  have hput : ∀ input, (u.put i (.signs key input)).OfCerts certs :=
    fun _ => h.put ha ⟨n, cert, hn, rfl⟩
  unfold CardUse.sign
  dsimp only
  split_ifs with hP1 hP1'
  · exact .quiet (hput _)
  · refine ⟨hput _, fun c hc => ?_⟩
    rw [List.mem_singleton.1 hc]
    exact ⟨apdu, i, n, cert, input, rfl, hsigns, hP1', hn, hselected, ha, rfl⟩
  · exact .quiet (hput _)

theorem fetch_keeps (h : u.OfCerts certs) {apdu : VCardAPDU} (hins : apdu.aIns = Ins.cacReadBuffer)
    {i : ℕ} {label : String} (hi : u.current apdu.channel = some (i, .reads label false)) :
    Keeps certs u (.card (.apdu apdu)) (u.fetch emul i label) := by
  obtain ⟨hselected, aid, ha⟩ := current_eq_some hi
  have hlabel : (aid, label) ∈ objectLabels := h _ (List.mem_of_getElem? ha)
  refine ⟨h.put ha hlabel, fun c hc => ?_⟩
  rw [List.mem_singleton.1 hc]
  exact ⟨apdu, i, aid, rfl, hins, hselected, ha, hlabel⟩

theorem step_keeps (h : u.OfCerts certs) (op : CardUse.Op τ) :
    Keeps certs u op (u.step emul op) := by
  rcases op with (apdu | power) | t
  · unfold CardUse.step CardUse.command
    dsimp only
    split
    · rename_i i key input hi
      split_ifs with hsigns
      · exact sign_keeps h hsigns hi
      · exact iso_keeps h apdu
    · rename_i i label hi
      split_ifs with hins
      · exact fetch_keeps h hins hi
      · exact iso_keeps h apdu
    · exact iso_keeps h apdu
  · exact .quiet h
  · exact .quiet h

/-- Whatever happens to a card, its applets have its own keys and objects. -/
theorem trace_ofCerts : ∀ {u : CardUse τ} (ops : List (CardUse.Op τ)), u.OfCerts certs →
    (u.trace emul ops).2.OfCerts certs
  | _, [], h => h
  | _, op :: ops, h => trace_ofCerts ops (step_keeps h op).ofCerts

end OneStep

section NewCards

theorem cacNewPkiApplet_use {i : ℕ} {cert : Bytes} {key : VCardKey} {a : VCardApplet}
    (h : cacNewPkiApplet emul i cert key = .ok (some a)) : a.use = .signs key [] := by
  obtain ⟨p, hp, rfl⟩ := of_map_private h
  simp only [cacNewPkiAppletPrivate, bind_eq_ok] at hp
  obtain ⟨tagBuffer, -, hp⟩ := hp
  rcases tagBuffer with _ | tagBuffer
  · simp at hp
  simp only [bind_eq_ok] at hp
  obtain ⟨valBuffer, -, hp⟩ := hp
  rcases valBuffer with _ | valBuffer
  · simp at hp
  simp only [pure_eq, Except.ok.injEq, Option.map_eq_some_iff] at hp
  obtain ⟨tlv, -, rfl⟩ := hp
  rfl

theorem cacNewEmptyApplet_use {aid : Bytes} {coids : List Bytes} {a : VCardApplet}
    (h : cacNewEmptyApplet aid coids = .ok (some a)) : a.use = .nothing := by
  obtain ⟨p, -, rfl⟩ := of_map_private h
  rfl

theorem cacNewPassthroughApplet_use {label : String} {aid : Bytes} {a : VCardApplet}
    (h : cacNewPassthroughApplet label aid = some a) :
    a.aid = aid ∧ a.use = .reads label false := by
  simp only [cacNewPassthroughApplet, cacNewPassthroughAppletPrivate, Option.map_eq_some_iff] at h
  obtain ⟨p, ⟨tlv, -, rfl⟩, rfl⟩ := h
  exact ⟨rfl, rfl⟩

theorem newPkis_ofCerts {a : VCardApplet} (h : .ok (some a) ∈ newPkis emul certs) :
    a.use.OfCerts certs a.aid := by
  obtain ⟨⟨⟨cert, key⟩, i⟩, hmem, ha⟩ := List.mem_map.1 h
  rw [cacNewPkiApplet_use ha, cacNewPkiApplet_aid ha]
  exact ⟨i, cert, (List.mem_zipIdx_iff_getElem? ..).1 hmem, rfl⟩

theorem cacContainers_ofCerts : ∀ new ∈ cacContainers, ∀ a, new = .ok (some a) →
    a.use.OfCerts certs a.aid := by
  have hempty : ∀ {aid coids a}, cacNewEmptyApplet aid coids = .ok (some a) →
      a.use.OfCerts certs a.aid := by
    intro aid coids a h
    rw [cacNewEmptyApplet_use h]
    trivial
  have hpassthrough : ∀ {label aid a}, (aid, label) ∈ objectLabels →
      (.ok (cacNewPassthroughApplet label aid) : Except Fault (Option VCardApplet)) = .ok (some a) →
      a.use.OfCerts certs a.aid := by
    intro label aid a hmem h
    obtain ⟨rfl, huse⟩ := cacNewPassthroughApplet_use (Except.ok.inj h)
    rw [huse]
    exact hmem
  simp only [cacContainers, List.forall_mem_cons]
  exact ⟨fun _ => hempty, fun _ => hempty, fun _ => hempty, fun _ => hempty, fun _ => hempty,
    fun _ => hempty, fun _ => hpassthrough (by simp [objectLabels]),
    fun _ => hpassthrough (by simp [objectLabels]), fun _ => hempty, fun _ => hempty,
    fun _ => hempty, by simp⟩

theorem new_ofCerts (digest : Bytes → Option Bytes) (new : NewCard τ) :
    (CardUse.new emul digest new).OfCerts new.certs := by
  unfold CardUse.new
  split
  · rename_i rv card h
    intro e he
    obtain ⟨a, ha, rfl⟩ := List.mem_map.1 he
    change a.use.OfCerts new.certs a.aid
    rcases vcardEmulMakeCard_cases h with ⟨-, -, -, hpkis⟩ | ⟨-, hmade⟩
    · exact newPkis_ofCerts (hpkis a ha)
    · obtain ⟨pkis, ccc, containers, hpkis, hccc, hcontainers, happlets⟩ := hmade.built
      rw [cacNewCccApplet_eq _ hmade.count] at hccc
      obtain ⟨hccc, -⟩ := Prod.mk.inj (Except.ok.inj hccc)
      obtain rfl := Option.some.inj hccc
      rw [happlets] at ha
      simp only [List.mem_append, List.mem_cons, List.not_mem_nil, or_false] at ha
      rcases ha with (ha | rfl | rfl | ha) | rfl | rfl
      · exact newPkis_ofCerts (hpkis.mem_news a ha)
      · trivial
      · trivial
      · exact cacContainers_ofCerts _ (hcontainers.mem_news a ha) a rfl
      · trivial
      · trivial
  · intro e he
    cases he

end NewCards

section Pins

theorem iso_pins (u : CardUse τ) (apdu : VCardAPDU) : (u.iso emul apdu).1.filterMap Call.pin?
    = (CardUse.Op.pin? (.card (.apdu apdu) : CardUse.Op τ)).toList := by
  unfold CardUse.iso CardUse.Op.pin?
  dsimp only
  split_ifs <;> rfl

theorem step_pins (u : CardUse τ) (op : CardUse.Op τ) :
    (u.step emul op).1.filterMap Call.pin? = op.pin?.toList := by
  rcases op with (apdu | power) | t
  · have hpin : ∀ {ins}, apdu.aIns = ins → ins ≠ Ins.verify →
        CardUse.Op.pin? (.card (.apdu apdu) : CardUse.Op τ) = none :=
      fun hins hne => if_neg fun h : apdu.GivesPin => hne (hins.symm.trans h.2.1)
    unfold CardUse.step CardUse.command
    dsimp only
    split
    · split_ifs with hsigns
      · rw [hpin hsigns.1 (by decide)]
        unfold CardUse.sign
        dsimp only
        split_ifs <;> rfl
      · exact iso_pins u apdu
    · split_ifs with hins
      · rw [hpin hins (by decide)]
        rfl
      · exact iso_pins u apdu
    · exact iso_pins u apdu
  · rfl
  · rfl

theorem trace_pins : ∀ (u : CardUse τ) (ops : List (CardUse.Op τ)),
    (u.trace emul ops).1.filterMap Call.pin? = ops.filterMap CardUse.Op.pin?
  | _, [] => rfl
  | u, op :: ops => by
    have hstep : (u.step emul op).1.filterMap Call.pin? = _ := step_pins u op
    have ih := trace_pins (u.step emul op).2 ops
    unfold CardUse.trace
    dsimp only
    rw [List.filterMap_append, ih, hstep, List.filterMap_cons]
    cases op.pin? <;> rfl

end Pins

section Programs

variable {digest : Bytes → Option Bytes} {y y' : Program τ} {ops : List (SharedOp τ)}
  {os : List (List (ℕ × Call))}

theorem SharedOp.made_append (ops ops' : List (SharedOp τ)) :
    SharedOp.made (ops ++ ops') = SharedOp.made ops ++ SharedOp.made ops' :=
  List.filterMap_append ..

theorem callsOf_trace (h : run (Program.asks emul digest) .start ops = .ok (os, y)) {k : ℕ}
    {new : NewCard τ} (hk : (SharedOp.made ops)[k]? = some new) :
    callsOf k os = ((CardUse.new emul digest new).trace emul (SharedOp.ofCard k ops)).1
      ∧ y.uses[k]? = some ((CardUse.new emul digest new).trace emul (SharedOp.ofCard k ops)).2 := by
  refine asks_trace (by simp [Program.start]) h ?_
  simp [Program.start, Program.uses, hk]

/-- In every run the calls made for card `k` are those due for what happens to the card alone, and
the card is left with what is selected, kept and in the token then, whatever happens to the others
in between. -/
theorem Program.callsOf_run (h : run (Program.asks emul digest) .start ops = .ok (os, y)) {k : ℕ}
    {new : NewCard τ} (hk : (SharedOp.made ops)[k]? = some new) :
    ∃ card, y.cards[k]? = some card
      ∧ (CardUse.new emul digest new).trace emul (SharedOp.ofCard k ops)
        = (callsOf k os, card.use) := by
  obtain ⟨hcalls, huse⟩ := callsOf_trace h hk
  rw [Program.uses, List.getElem?_map, Option.map_eq_some_iff] at huse
  obtain ⟨card, hcard, huse⟩ := huse
  exact ⟨card, hcard, Prod.ext hcalls.symm huse.symm⟩

def plainToken : Emul Unit := Emul.plain none Emul.plain_none

/-- Two cards are used in turns. -/
def inTurns : List (SharedOp Unit) :=
  [.program (.make (newCard [([1, 2, 3], 0)])), .program (.make (newCard [([4, 5], 7)])),
    .program (.card 0 (.apdu selectPki)), .program (.card 1 (.apdu selectPki)),
    .program (.card 0 (.apdu signPart)), .program (.card 1 (.apdu givePin)), .token 0 (),
    .program (.card 1 (.apdu signPart)), .program (.card 0 (.apdu signLast))]

/-- The calls of a run, and how many cards it leaves. -/
def askedIn (ops : List (SharedOp Unit)) : Option (List (List (ℕ × Call)) × ℕ) :=
  match run (Program.asks plainToken fun _ => none) .start ops with
  | .ok (os, y) => some (os, y.cards.length)
  | .error _ => none

theorem exists_of_askedIn {ops : List (SharedOp Unit)} {os : List (List (ℕ × Call))} {n : ℕ}
    (h : askedIn ops = some (os, n)) :
    ∃ y, run (Program.asks plainToken fun _ => none) .start ops = .ok (os, y)
      ∧ y.cards.length = n := by
  unfold askedIn at h
  split at h
  · rename_i os' y hrun
    obtain ⟨rfl, rfl⟩ := Prod.mk.inj (Option.some.inj h)
    exact ⟨y, hrun, rfl⟩
  · cases h

theorem askedIn_inTurns : askedIn inTurns = some ([[], [], [], [], [],
    [(1, .login [0x31, 0x32, 0x33, 0x34] Status.success)], [], [],
    [(0, .rsaOp 0 [0x01, 0x02, 0x03])]], 2) := by decide +kernel

theorem Program.callsOf_inTurns : ∃ os y,
    run (Program.asks plainToken fun _ => none) .start inTurns = .ok (os, y)
      ∧ callsOf 0 os = [.rsaOp 0 [0x01, 0x02, 0x03]] ∧ ∃ card, y.cards[0]? = some card
      ∧ (CardUse.new plainToken (fun _ => none) (newCard [([1, 2, 3], 0)])).trace
        plainToken (SharedOp.ofCard 0 inTurns) = (callsOf 0 os, card.use) := by
  obtain ⟨y, hrun, -⟩ := exists_of_askedIn askedIn_inTurns
  exact ⟨_, y, hrun, rfl, Program.callsOf_run hrun rfl⟩

/-- The cards of a program are those its steps made. -/
theorem length_uses (h : run (Program.asks emul digest) .start ops = .ok (os, y)) :
    y.uses.length = (SharedOp.made ops).length ∧ ∀ card ∈ y.cards, CardOk card := by
  refine run_induction (I := fun ops y => y.uses.length = (SharedOp.made ops).length
    ∧ ∀ card ∈ y.cards, CardOk card) ⟨rfl, by simp [Program.start]⟩ ?_ h
  rintro ops - y op calls y' - ⟨hlen, hok⟩ hstep
  obtain ⟨hasks, hok'⟩ := asks_step hok hstep
  refine ⟨?_, hok'⟩
  rw [SharedOp.made_append, List.length_append, ← hlen]
  generalize y.uses = us at hasks
  generalize y'.uses = us' at hasks ⊢
  cases hasks with
  | make => simp [SharedOp.made]
  | card | token => simp [SharedOp.made]

/-- In every run, every login, operation and read is for a command to its card, and is one that this
command may have with the certificates the card was made of. -/
theorem Program.calls_allowed (h : run (Program.asks emul digest) .start ops = .ok (os, y))
    {op : SharedOp τ} {calls : List (ℕ × Call)} (hstep : y.asks emul digest op = .ok (calls, y'))
    {k : ℕ} {c : Call} (hc : (k, c) ∈ calls) :
    ∃ new u cardOp, (SharedOp.made ops)[k]? = some new ∧ y.uses[k]? = some u
      ∧ op = .program (.card k cardOp) ∧ u.Allowed new.certs (.card cardOp) c := by
  obtain ⟨hlen, hok⟩ := length_uses h
  obtain ⟨hasks, -⟩ := asks_step hok hstep
  generalize hus : y.uses = us at hasks
  generalize y'.uses = us' at hasks
  cases hasks with
  | make => cases hc
  | token => cases hc
  | @card j u op hj =>
    obtain ⟨c', hc', heq⟩ := List.mem_map.1 hc
    obtain ⟨rfl, rfl⟩ := Prod.mk.inj heq
    have hlt := (List.getElem?_eq_some_iff.1 hj).1
    obtain ⟨new, hnew⟩ : ∃ new, (SharedOp.made ops)[j]? = some new :=
      ⟨_, List.getElem?_eq_getElem (by rw [← hlen, hus]; exact hlt)⟩
    obtain ⟨-, huse⟩ := callsOf_trace h hnew
    obtain rfl := Option.some.inj (huse.symm.trans (hus ▸ hj))
    have hmade : (CardUse.new emul digest new).OfCerts new.certs := new_ofCerts digest new
    have hcerts : (CardUse.trace emul (CardUse.new emul digest new)
        (SharedOp.ofCard j ops)).2.OfCerts new.certs := trace_ofCerts _ hmade
    exact ⟨new, _, op, hnew, hj, rfl, (step_keeps hcerts _).allowed c' hc'⟩

/-- The last step of the cards in turns. -/
theorem Program.calls_inTurns : ∃ os y y',
    run (Program.asks plainToken fun _ => none) .start inTurns.dropLast
        = .ok (os, y)
      ∧ y.asks plainToken (fun _ => none)
        (.program (.card 0 (.apdu signLast))) = .ok ([(0, .rsaOp 0 [0x01, 0x02, 0x03])], y')
      ∧ ∃ new u cardOp, (SharedOp.made inTurns.dropLast)[0]? = some new ∧ y.uses[0]? = some u
        ∧ (.program (.card 0 (.apdu signLast)) : SharedOp Unit) = .program (.card 0 cardOp)
        ∧ u.Allowed new.certs (.card cardOp) (.rsaOp 0 [0x01, 0x02, 0x03]) := by
  obtain ⟨y', hrun, -⟩ := exists_of_askedIn askedIn_inTurns
  obtain ⟨os, y, os', hfirst, hlast, heq⟩ := run_append_eq_ok.1
    (show run _ _ (inTurns.dropLast ++ [.program (.card 0 (.apdu signLast))]) = _ from hrun)
  obtain ⟨calls, y₁, os'', hstep, hnil, rfl⟩ := run_cons_eq_ok.1 hlast
  obtain ⟨rfl, rfl⟩ := Prod.mk.inj (Except.ok.inj hnil)
  have hcalls : calls = [(0, .rsaOp 0 [0x01, 0x02, 0x03])] := by
    have hsplit := congrArg List.getLast? heq
    simpa using hsplit.symm
  subst hcalls
  exact ⟨os, y, y₁, hfirst, hstep, Program.calls_allowed hfirst hstep (List.mem_singleton.2 rfl)⟩

/-- In every run `vcard_emul_login` is called for a card with just what its VERIFY commands had, each
once and in order. -/
theorem Program.pins_run (h : run (Program.asks emul digest) .start ops = .ok (os, y)) {k : ℕ}
    (hk : k < y.cards.length) :
    (callsOf k os).filterMap Call.pin? = (SharedOp.ofCard k ops).filterMap CardUse.Op.pin? := by
  obtain ⟨hlen, -⟩ := length_uses h
  obtain ⟨new, hnew⟩ : ∃ new, (SharedOp.made ops)[k]? = some new := by
    refine ⟨_, List.getElem?_eq_getElem ?_⟩
    rw [← hlen, Program.uses, List.length_map]
    exact hk
  rw [(callsOf_trace h hnew).1, trace_pins]

theorem Program.pins_inTurns : ∃ os y,
    run (Program.asks plainToken fun _ => none) .start inTurns = .ok (os, y)
      ∧ (callsOf 1 os).filterMap Call.pin? = [[0x31, 0x32, 0x33, 0x34]]
      ∧ (callsOf 1 os).filterMap Call.pin?
        = (SharedOp.ofCard 1 inTurns).filterMap CardUse.Op.pin? := by
  obtain ⟨y, hrun, hlen⟩ := exists_of_askedIn askedIn_inTurns
  exact ⟨_, y, hrun, rfl, Program.pins_run hrun (by rw [hlen]; decide)⟩

end Programs

end Libcacard
