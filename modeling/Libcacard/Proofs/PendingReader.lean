import Libcacard.PendingReader
import Libcacard.Proofs.VscSystem

/-!
# When an answer settles the pending reader

While its answer is to come, the reader is in the slot with a reference of its own, and only threads
that wait for it are asleep (`PendingSystem.Ok`). A success takes it out, gives the reference back
and wakes one of them. A refusal because of too many readers takes it out alone, and any other
refusal does nothing.
-/

namespace Libcacard

open Machine

variable {σ : Type} {readers : CardReaders σ} {s s' : PendingSystem σ}

section Slot

/-- A thread puts the reader it takes a reference to into the slot. -/
theorem threadStep_slot {c c' : Client σ} {atr : Bytes} {t t' : EventThread}
    (h : c.threadStep atr t = some (t', c')) :
    c'.pendingReader = (t.takes c).or c.pendingReader ∧ c'.threads = c.threads := by
  rcases t with _ | event | event | event | event | ⟨event, readerId⟩ | ⟨event, readerId⟩
  · unfold Client.threadStep at h
    rcases hev : c.events with _ | ⟨event, events⟩ <;> rw [hev] at h <;> cases h
    exact ⟨rfl, rfl⟩
  · simp only [Client.threadStep] at h
    split_ifs at h <;> cases h <;> exact ⟨rfl, rfl⟩
  · simp only [Client.threadStep] at h
    split_ifs at h <;> cases h <;> exact ⟨rfl, rfl⟩
  · simp only [Client.threadStep] at h
    split_ifs at h
    cases h
    exact ⟨rfl, rfl⟩
  · simp only [Client.threadStep] at h
    split_ifs at h <;> cases h <;> exact ⟨rfl, rfl⟩
  · rcases event with ⟨type, reader⟩
    rcases type <;> simp only [Client.threadStep, Client.sendMsg] at h
    · split_ifs at h with hnone
      cases h
      refine ⟨?_, rfl⟩
      rw [EventThread.takes, if_pos ⟨rfl, hnone⟩]
      rfl
    all_goals
      cases h
      exact ⟨rfl, rfl⟩
  · cases h
    exact ⟨rfl, rfl⟩

/-- An answer leaves the threads alone, and a success or a refusal of all further readers empties
the slot. -/
theorem onError_slot (c : Client σ) (h : VSCMsgHeader) (code : UInt32) :
    (c.onError h code).threads = c.threads
      ∧ (c.onError h code).pendingReader
        = if code = VSCErrorCode.success ∨ code = VSCErrorCode.cannotAddMoreReaders then none
          else c.pendingReader := by
  unfold Client.onError
  by_cases hsuccess : code = VSCErrorCode.success
  · rw [if_pos hsuccess, if_pos (.inl hsuccess)]
    rcases hp : c.pendingReader with _ | r
    · exact ⟨rfl, hp⟩
    · exact ⟨rfl, rfl⟩
  · rw [if_neg hsuccess]
    by_cases hcannot : code = VSCErrorCode.cannotAddMoreReaders
    · rw [if_pos hcannot, if_pos (.inr hcannot)]
      exact ⟨rfl, rfl⟩
    · rw [if_neg hcannot, if_neg (not_or.2 ⟨hsuccess, hcannot⟩)]
      exact ⟨rfl, rfl⟩

theorem signal_eq_some {asleep asleep' : List ℕ} {woken : ℕ}
    (h : signal asleep woken = some asleep') :
    asleep'.Sublist asleep ∧ (asleep.Nodup → asleep'.length = asleep.length - 1) := by
  unfold signal at h
  split_ifs at h with hnil hmem
  · cases h
    rw [hnil]
    exact ⟨List.Sublist.refl [], fun _ => rfl⟩
  · cases h
    exact ⟨List.erase_sublist, fun _ => List.length_erase_of_mem hmem⟩

end Slot

section Steps

/-- What holds in every state of a run. -/
structure PendingSystem.Ok (s : PendingSystem σ) : Prop where
  system : s.system.Ok
  held : ∀ r, s.system.client.pendingReader = some r → 1 ≤ s.references r
  sleeping : ∀ i ∈ s.asleep, ∃ t, s.system.client.threads[i]? = some t ∧ t.waits
  nodup : s.asleep.Nodup

/-- What an answer makes of the slot. -/
structure AnswerStep (s s' : PendingSystem σ) (m : Incoming) (woken : ℕ) : Prop where
  client : s'.system.client = s.system.client.onError m.header m.code
  references : s'.references = match s.system.client.gives m with
    | some r => Function.update s.references r (s.references r - 1)
    | none => s.references
  asleep : (if s.system.client.signals m then signal s.asleep woken else some s.asleep)
    = some s'.asleep

theorem receive_error {m : Incoming} {incoming : List Incoming} {woken : ℕ}
    (hin : s.system.incoming = m :: incoming) (herror : m.IsError)
    (hs : s.step readers (.act .receive woken) = some s') : AnswerStep s s' m woken := by
  simp only [PendingSystem.step, Option.bind_eq_bind, Option.bind_eq_some_iff] at hs
  obtain ⟨system, hsystem, ⟨references, asleep⟩, hslot, hs⟩ := hs
  cases hs
  simp only [VscSystem.step, hin] at hsystem
  rcases hr : s.system.client.handle readers m.header m.pbSendBuffer.1 with e | ⟨goesOn, c⟩ <;>
    rw [hr] at hsystem <;> cases hsystem
  simp only [PendingSystem.slot, hin] at hslot
  split_ifs at hslot with hsignals
  · obtain ⟨asleep', hasleep, hslot⟩ := Option.bind_eq_some_iff.1 hslot
    cases hslot
    exact ⟨handle_error hr herror, rfl, by rw [if_pos hsignals]; exact hasleep⟩
  · cases hslot
    exact ⟨handle_error hr herror, rfl, by rw [if_neg hsignals]⟩

theorem PendingSystem.start_ok (world : σ) : (PendingSystem.start world).Ok where
  system := VscSystem.start_ok world
  held r hr := by cases hr
  sleeping i hi := by cases hi
  nodup := List.nodup_nil

/-- An event thread that is awake goes on. -/
theorem PendingSystem.Ok.thread (h : s.Ok) {system : VscSystem σ} {references : ℕ → ℕ}
    {asleep : List ℕ} {i woken : ℕ} {atr : Bytes} (hsystem : system.Ok)
    (hstep : s.system.step readers (.thread i atr) = some system)
    (hslot : s.slot woken (.thread i atr) = some (references, asleep)) :
    PendingSystem.Ok ⟨system, references, asleep⟩ := by
  simp only [VscSystem.step, Option.bind_eq_bind, Option.bind_eq_some_iff] at hstep
  obtain ⟨t, ht, ⟨t', c⟩, hgoes, hstep⟩ := hstep
  cases hstep
  obtain ⟨hpending, hthreads⟩ := threadStep_slot hgoes
  simp only [PendingSystem.slot, ht, Option.bind_some] at hslot
  split_ifs at hslot with hawake
  have hsleeping : ∀ j ∈ s.asleep, ∃ t, (c.threads.set i t')[j]? = some t ∧ t.waits := by
    intro j hj
    have hne : i ≠ j := fun heq => hawake (heq ▸ hj)
    rw [List.getElem?_set_ne hne, hthreads]
    exact h.sleeping j hj
  rcases htakes : t.takes s.system.client with _ | r <;> rw [htakes] at hslot hpending <;>
    cases hslot
  · exact ⟨hsystem, fun r hr => h.held r (hpending.symm.trans hr), hsleeping, h.nodup⟩
  · refine ⟨hsystem, fun x hx => ?_, hsleeping, h.nodup⟩
    obtain rfl := Option.some.inj (hpending.symm.trans hx)
    have hone : Function.update s.references r (s.references r + 1) r = s.references r + 1 :=
      Function.update_self ..
    exact hone.ge.trans' (Nat.le_add_left 1 _)

/-- The client processes a message. -/
theorem PendingSystem.Ok.receive (h : s.Ok) {woken : ℕ} (hsystem : s'.system.Ok)
    (hs : s.step readers (.act .receive woken) = some s') : s'.Ok := by
  rcases hin : s.system.incoming with _ | ⟨m, incoming⟩
  · simp [PendingSystem.step, VscSystem.step, hin] at hs
  by_cases herror : m.IsError
  · obtain ⟨hclient, hreferences, hasleep⟩ := receive_error hin herror hs
    obtain ⟨hthreads, hpending⟩ := onError_slot s.system.client m.header m.code
    have hsub : s'.asleep.Sublist s.asleep := by
      split_ifs at hasleep with hsignals
      · exact (signal_eq_some hasleep).1
      · rw [Option.some.inj hasleep]
    refine ⟨hsystem, fun r hr => ?_, fun i hi => ?_, h.nodup.sublist hsub⟩
    · rw [hclient, hpending] at hr
      split_ifs at hr with hcode
      rw [hreferences, Client.gives, if_neg fun h' => hcode (.inl h'.2)]
      exact h.held r hr
    · rw [hclient, hthreads]
      exact h.sleeping i (hsub.subset hi)
  · simp only [PendingSystem.step, Option.bind_eq_bind, Option.bind_eq_some_iff] at hs
    obtain ⟨system, hstep, ⟨references, asleep⟩, hslot, hs⟩ := hs
    cases hs
    simp only [VscSystem.step, hin] at hstep
    rcases hr : s.system.client.handle readers m.header m.pbSendBuffer.1 with e | ⟨goesOn, c⟩ <;>
      rw [hr] at hstep <;> cases hstep
    obtain ⟨l, l', world, rfl, -, -⟩ := handle_eq_ok_of_ne_error hr herror
    simp only [PendingSystem.slot, hin] at hslot
    rw [if_neg fun hsignals => herror hsignals.1, Client.gives, if_neg fun h' => herror h'.1]
      at hslot
    cases hslot
    refine ⟨hsystem, h.held, fun i hi => ?_, h.nodup⟩
    obtain ⟨t, ht, hwaits⟩ := h.sleeping i hi
    refine ⟨t, ?_, hwaits⟩
    rw [List.getElem?_append_left (List.getElem?_eq_some_iff.1 ht).1]
    exact ht

theorem PendingSystem.Ok.step {a : PendingAction σ} (h : s.Ok) (ha : s.AnswersAdd a)
    (hs : s.step readers a = some s') : s'.Ok := by
  cases a with
  | sleep i =>
    simp only [PendingSystem.step, Option.bind_eq_bind, Option.bind_eq_some_iff] at hs
    obtain ⟨t, ht, hs⟩ := hs
    split_ifs at hs with hsleeps
    cases hs
    refine ⟨h.system, h.held, forall_mem_concat h.sleeping ⟨t, ht, hsleeps.1⟩, ?_⟩
    exact List.nodup_append.2 ⟨h.nodup, List.pairwise_singleton _ i, fun j hj k hk heq =>
      hsleeps.2.2 (List.mem_singleton.1 hk ▸ heq ▸ hj)⟩
  | wake i =>
    simp only [PendingSystem.step] at hs
    split_ifs at hs
    cases hs
    exact ⟨h.system, h.held, fun j hj => h.sleeping j (List.erase_subset hj), h.nodup.erase i⟩
  | act action woken =>
    have hstep := hs
    simp only [PendingSystem.step, Option.bind_eq_bind, Option.bind_eq_some_iff] at hstep
    obtain ⟨system, hsystem, ⟨references, asleep⟩, hslot, heq⟩ := hstep
    have hok := h.system.step ha hsystem
    cases action with
    | event event | world world =>
      cases heq
      cases hsystem
      cases hslot
      exact ⟨hok, h.held, h.sleeping, h.nodup⟩
    | thread i atr =>
      cases heq
      exact h.thread hok hsystem hslot
    | answer readerId length buffer =>
      simp only [VscSystem.step, Option.bind_eq_bind, Option.bind_eq_some_iff] at hsystem
      obtain ⟨m, hm, hsystem⟩ := hsystem
      cases heq
      cases hslot
      split_ifs at hsystem <;> cases hsystem <;> exact ⟨hok, h.held, h.sleeping, h.nodup⟩
    | send header buffer =>
      simp only [VscSystem.step] at hsystem
      cases heq
      cases hslot
      split_ifs at hsystem
      cases hsystem
      exact ⟨hok, h.held, h.sleeping, h.nodup⟩
    | receive =>
      refine h.receive ?_ hs
      cases heq
      exact hok

theorem PendingReachable.ok (h : PendingReachable readers s) : s.Ok := by
  induction h with
  | start world => exact PendingSystem.start_ok world
  | step _ ha hs ih => exact ih.step ha hs

end Steps

/-- The reader whose `VSC_ReaderAdd` is answered is the pending one. -/
theorem VscSystem.Ok.pending_of_answersAddOf {s : VscSystem σ} {m : Incoming}
    {incoming : List Incoming} {r : ℕ} (h : s.Ok) (hin : s.incoming = m :: incoming)
    (hm : m.AnswersAddOf r) : s.client.pendingReader = some r ∧ m.IsError := by
  obtain ⟨q, hq, hadd, habout⟩ := hm
  refine ⟨h.adds r ?_, (h.answers m (by rw [hin]; exact List.mem_cons_self) q hq).2⟩
  rw [adds_of_incoming hin, hq, Option.bind_some, Sent.adds, if_pos hadd, habout]
  exact List.mem_append_left _ (List.mem_singleton_self r)

theorem threadStep_of_waits {c : Client σ} {t : EventThread} (hwaits : t.waits)
    (hnone : c.pendingReader = none) (atr : Bytes) : (c.threadStep atr t).isSome := by
  rcases t with _ | event | event | event | event | ⟨⟨type, reader⟩, readerId⟩ | ⟨event, readerId⟩
  · cases hwaits
  · cases hwaits
  · cases hwaits
  · simp only [Client.threadStep, if_pos hnone, Option.isSome_some]
  · cases hwaits
  · obtain rfl : type = .readerInsert := of_decide_eq_true hwaits
    simp only [Client.threadStep, if_pos hnone, Option.isSome_some]
  · cases hwaits

/-- Only a success gives the reference back. -/
theorem Settled.success {m : Incoming} {r woken : ℕ} (h : Settled s s' m r)
    (hstep : AnswerStep s s' m woken) : m.code = VSCErrorCode.success := by
  by_contra hcode
  have hsame : s'.references = s.references := by
    rw [hstep.references, Client.gives, if_neg fun h' => hcode h'.2]
  have hreleased := h.released
  rw [hsame] at hreleased
  omega

/-- An answer to a `VSC_ReaderAdd` settles its reader just if it is a success with an id and one
thread sleeps at most. -/
theorem settled_iff {m : Incoming} {incoming : List Incoming} {r woken : ℕ}
    (h : PendingReachable readers s) (hin : s.system.incoming = m :: incoming)
    (hm : m.AnswersAddOf r) (hs : s.step readers (.act .receive woken) = some s') :
    Settled s s' m r ↔ m.code = VSCErrorCode.success
      ∧ m.header.readerId ≠ vscardUndefinedReaderId ∧ s.asleep.length ≤ 1 := by
  have hok := h.ok
  obtain ⟨hpending, herror⟩ := hok.system.pending_of_answersAddOf hin hm
  have hstep := receive_error hin herror hs
  by_cases hcode : m.code = VSCErrorCode.success
  swap
  · exact iff_of_false (fun hsettled => hcode (hsettled.success hstep)) fun h' => hcode h'.1
  obtain ⟨hthreads, hslot⟩ := onError_slot s.system.client m.header m.code
  rw [← hstep.client] at hthreads hslot
  rw [if_pos (.inl hcode)] at hslot
  have hgiven : s'.system.client.readerId r = m.header.readerId := by
    rw [hstep.client, Client.onError, if_pos hcode, hpending]
    exact Function.update_self ..
  have hreferences : s'.references = Function.update s.references r (s.references r - 1) := by
    rw [hstep.references, Client.gives, if_pos ⟨herror, hcode⟩, hpending]
  have hasleep := hstep.asleep
  rw [if_pos ⟨herror, .inl hcode, by rw [hpending]; exact Option.some_ne_none r⟩] at hasleep
  obtain ⟨hsub, hlength⟩ := signal_eq_some hasleep
  have hlength := hlength hok.nodup
  constructor
  · intro hsettled
    refine ⟨hcode, ?_, ?_⟩
    · rw [← hgiven]
      exact hsettled.id.2 hcode
    · have hnone : s'.asleep = [] := by
        refine List.eq_nil_iff_forall_not_mem.2 fun i hi => ?_
        obtain ⟨t, ht, hwaits⟩ := hok.sleeping i (hsub.subset hi)
        exact (hsettled.unblocked i t (by rw [hthreads]; exact ht) hwaits).1 hi
      rw [hnone, List.length_nil] at hlength
      omega
  · rintro ⟨-, hid, hsleepers⟩
    have hnone : s'.asleep = [] := List.eq_nil_of_length_eq_zero (by omega)
    refine ⟨?_, ?_, ?_, fun i t ht hwaits => ⟨?_, ?_⟩⟩
    · rw [hslot]
      exact (Option.some_ne_none r).symm
    · rw [hgiven]
      exact iff_of_true hid hcode
    · have hheld := hok.held r hpending
      rw [hreferences, Function.update_self]
      omega
    · rw [hnone]
      exact List.not_mem_nil
    · exact threadStep_of_waits hwaits hslot

theorem PendingReachable.follow : ∀ {s s' : PendingSystem σ} {as : List (PendingAction σ)},
    PendingReachable readers s → s.follow readers as = some s' → PendingReachable readers s'
  | s, s', [], h, hf => by
    cases hf
    exact h
  | s, s', a :: as, h, hf => by
    unfold PendingSystem.follow at hf
    split_ifs at hf with ha
    obtain ⟨s₁, hs, hf⟩ := Option.bind_eq_some_iff.1 hf
    exact (h.step ha hs).follow hf

/-- The client connects, a reader is added, and the host's answer to that is on its way. -/
def answerAdd (readerId : UInt32) (buffer : ByteArr apduBufSize) : List (PendingAction Unit) :=
  (connect ++ success ++ addReader ++ [VscAction.answer readerId 4 buffer]).map (.act · 0)

/-- The next message answers the `VSC_ReaderAdd` of the reader 0 with this code, and can be
processed. -/
def answersNext (code : UInt32) (s : PendingSystem Unit) : Bool :=
  match s.system.incoming with
  | [] => false
  | m :: _ => m.code = code ∧ (s.step .empty (.act .receive 0)).isSome
    ∧ m.answers.any fun q => q.IsReaderAdd ∧ q.about = some 0

theorem exists_answersNext {readerId : UInt32} {buffer : ByteArr apduBufSize} {code : UInt32}
    (h : ((PendingSystem.start ()).follow .empty (answerAdd readerId buffer)).any
      (answersNext code)) :
    ∃ s s' : PendingSystem Unit, ∃ m incoming, PendingReachable .empty s
      ∧ s.system.incoming = m :: incoming ∧ m.AnswersAddOf 0 ∧ m.code = code
      ∧ s.step .empty (.act .receive 0) = some s' := by
  obtain ⟨s, hs, hnext⟩ := (Option.any_eq_true _ _).1 h
  unfold answersNext at hnext
  rcases hin : s.system.incoming with _ | ⟨m, incoming⟩ <;> rw [hin] at hnext
  · cases hnext
  obtain ⟨hcode, hstep, hanswers⟩ := of_decide_eq_true hnext
  obtain ⟨s', hs'⟩ := Option.isSome_iff_exists.1 hstep
  obtain ⟨q, hq, hadd⟩ := (Option.any_eq_true _ _).1 hanswers
  exact ⟨s, s', m, incoming, PendingReachable.follow (.start ()) hs, hin,
    ⟨q, hq, of_decide_eq_true hadd⟩, hcode, hs'⟩

/-- The host accepts the reader. -/
theorem settled_iff_success : ∃ s s' : PendingSystem Unit, ∃ m,
    PendingReachable .empty s ∧ s.step .empty (.act .receive 0) = some s'
      ∧ (Settled s s' m 0 ↔ m.code = VSCErrorCode.success
        ∧ m.header.readerId ≠ vscardUndefinedReaderId ∧ s.asleep.length ≤ 1) := by
  obtain ⟨s, s', m, incoming, h, hin, hm, -, hs⟩ := exists_answersNext (show
    ((PendingSystem.start ()).follow .empty (answerAdd 0 (bufferOf [] (by decide)))).any
      (answersNext VSCErrorCode.success) = true by decide +kernel)
  exact ⟨s, s', m, h, hs, settled_iff h hin hm hs⟩

/-- The host refuses the reader with `VSC_GENERAL_ERROR`. -/
theorem generalError_not_settled : ¬ ∀ (s s' : PendingSystem Unit) (m : Incoming)
    (incoming : List Incoming) (r woken : ℕ), PendingReachable .empty s →
    s.system.incoming = m :: incoming → m.AnswersAddOf r →
    s.step .empty (.act .receive woken) = some s' → Settled s s' m r := by
  intro hall
  obtain ⟨s, s', m, incoming, h, hin, hm, hcode, hs⟩ := exists_answersNext (show
    ((PendingSystem.start ()).follow .empty
      (answerAdd 0 (bufferOf [0x01, 0x00, 0x00, 0x00] (by decide)))).any
      (answersNext VSCErrorCode.generalError) = true by decide +kernel)
  have hsettled := hall s s' m incoming 0 0 h hin hm hs
  have herror := (h.ok.system.pending_of_answersAddOf hin hm).2
  exact absurd (hcode.symm.trans (hsettled.success (receive_error hin herror hs))) (by decide)

end Libcacard
