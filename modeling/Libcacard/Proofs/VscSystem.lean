import Libcacard.Proofs.SocketRead
import Libcacard.VscSystem

/-!
# Whose answer grants an id

At most one `VSC_ReaderAdd` is under way, and it is the pending reader's, as long as no answer to
another message takes the reader out of the slot.
-/

namespace Libcacard

open Machine

variable {σ : Type} {readers : CardReaders σ}

/-- The reader a message is the `VSC_ReaderAdd` of. -/
def Sent.adds (m : Sent) : Option ℕ := if m.IsReaderAdd then m.about else none

@[simp] theorem isReaderAdd_iff {type : VSCMsgType} {readerId length : UInt32} {payload : Bytes}
    {about : Option ℕ} :
    Sent.IsReaderAdd ⟨⟨type.value, readerId, length⟩, payload, about⟩ ↔ type = .readerAdd := by
  rcases type <;> simp [Sent.IsReaderAdd, VSCMsgType.value]

/-- The reader a thread is going to send the `VSC_ReaderAdd` of. -/
def EventThread.adds : EventThread → Option ℕ
  | .adding event _ => some event.reader
  | _ => none

@[simp] theorem EventThread.adds_idle : EventThread.idle.adds = none := rfl

/-- The event a thread forwards for a reader that has an id. -/
def EventThread.forwards : EventThread → Option VEvent
  | .forwarding event _ => if event.type = .readerInsert then none else some event
  | _ => none

/-- The host said yes to the reader's `VSC_ReaderAdd`. -/
def VscSystem.Granted (s : VscSystem σ) (r : ℕ) : Prop :=
  ∃ m, m.IsReaderAdd ∧ m.about = some r ∧ (m, VSCErrorCode.success) ∈ s.answered

/-- The readers whose `VSC_ReaderAdd` has not come back. -/
def VscSystem.adds (s : VscSystem σ) : List ℕ :=
  s.incoming.filterMap (fun m => m.answers.bind Sent.adds)
    ++ (s.client.sent.drop s.taken).filterMap Sent.adds
    ++ s.client.threads.filterMap EventThread.adds

/-- What holds in every state. -/
structure VscSystem.Ok (s : VscSystem σ) : Prop where
  taken_le : s.taken ≤ s.client.sent.length
  about : ∀ m ∈ s.client.sent, m.IsReaderAdd → m.about ≠ none
  answers : ∀ m ∈ s.incoming, ∀ q ∈ m.answers, q ∈ s.client.sent ∧ m.IsError
  adds : ∀ r ∈ s.adds, s.client.pendingReader = some r
  adds_length : s.adds.length ≤ 1
  grants : ∀ g ∈ s.grants, ∃ m, g.2 = some m ∧ m.IsReaderAdd ∧ m.about = some g.1
    ∧ (m, VSCErrorCode.success) ∈ s.answered
  ids : ∀ r, s.client.readerId r ≠ vscardUndefinedReaderId → s.Granted r
  threads : ∀ t ∈ s.client.threads, ∀ e ∈ t.forwards, s.Granted e.reader
  sent : ∀ m ∈ s.client.sent, ∀ r, m.about = some r → m.IsReaderAdd ∨ s.Granted r

theorem VscSystem.Ok.ownGrants {s : VscSystem σ} (h : s.Ok) : s.OwnGrants := by
  have hnot : ∀ r, (∀ m code, (m, code) ∈ s.answered → m.IsReaderAdd → m.about = some r →
      code ≠ VSCErrorCode.success) → ¬ s.Granted r := by
    rintro r hr ⟨m, hadd, habout, hmem⟩
    exact hr m _ hmem hadd habout rfl
  refine ⟨h.grants, fun r hr => ⟨?_, fun m hm habout => ?_⟩⟩
  · by_contra hid
    exact hnot r hr (h.ids r hid)
  · exact (h.sent m hm r habout).resolve_right (hnot r hr)

theorem VscSystem.start_ok (world : σ) : (VscSystem.start world).Ok := by
  constructor <;> simp [VscSystem.start, Client.start, VscSystem.adds]

/-- What a step of an event thread does to the client. -/
inductive Progress (c : Client σ) (t t' : EventThread) : Client σ → Prop
  | quiet (events : List VEvent) (ht : t.adds = none) (ht' : t'.adds = none)
    (hforwards : ∀ e ∈ t'.forwards, e ∈ t.forwards
      ∨ c.readerId e.reader ≠ vscardUndefinedReaderId) :
    Progress c t t' { c with events := events }
  | pend {r : ℕ} (hnone : c.pendingReader = none) (ht : t.adds = none) (ht' : t'.adds = some r)
    (hforwards : t'.forwards = none) : Progress c t t' { c with pendingReader := some r }
  | add {r : ℕ} {m : Sent} (ht : t.adds = some r) (ht' : t' = .idle) (hm : m.IsReaderAdd)
    (habout : m.about = some r) : Progress c t t' { c with sent := c.sent ++ [m] }
  | forward {e : VEvent} {m : Sent} (ht : t.adds = none) (ht' : t' = .idle)
    (he : e ∈ t.forwards) (hm : ¬ m.IsReaderAdd) (habout : m.about = some e.reader) :
    Progress c t t' { c with sent := c.sent ++ [m] }

theorem threadStep_progress {c c' : Client σ} {atr : Bytes} {t t' : EventThread}
    (h : c.threadStep atr t = some (t', c')) : Progress c t t' c' := by
  rcases t with _ | event | event | event | event | ⟨event, readerId⟩ | ⟨event, readerId⟩
  · unfold Client.threadStep at h
    rcases hev : c.events with _ | ⟨event, events⟩ <;> rw [hev] at h <;> cases h
    exact .quiet events rfl rfl (by simp [EventThread.forwards])
  · simp only [Client.threadStep] at h
    split_ifs at h with hid
    · cases h
      exact .quiet _ rfl rfl (by simp [EventThread.forwards])
    · cases h
      refine .quiet _ rfl rfl fun e he => .inr ?_
      simp only [EventThread.forwards] at he
      split_ifs at he with htype
      · cases he
      · cases he
        exact fun hid' => hid ⟨hid', htype⟩
  · simp only [Client.threadStep] at h
    split_ifs at h <;> cases h <;> exact .quiet _ rfl rfl (by simp [EventThread.forwards])
  · simp only [Client.threadStep] at h
    split_ifs at h
    cases h
    exact .quiet _ rfl rfl (by simp [EventThread.forwards])
  · simp only [Client.threadStep] at h
    split_ifs at h with hid
    · cases h
      exact .quiet _ rfl rfl (by simp [EventThread.forwards])
    · cases h
      refine .quiet _ rfl rfl fun e he => .inr ?_
      simp only [EventThread.forwards] at he
      split_ifs at he
      · cases he
      · cases he
        exact hid
  · rcases event with ⟨type, reader⟩
    rcases type <;> simp only [Client.threadStep, Client.sendMsg] at h
    · split_ifs at h with hnone
      cases h
      exact .pend hnone rfl rfl rfl
    · cases h
      exact .forward (e := ⟨.readerRemove, reader⟩) rfl rfl rfl (by simp) rfl
    · cases h
      exact .forward (e := ⟨.cardInsert, reader⟩) rfl rfl rfl (by simp) rfl
    · cases h
      exact .forward (e := ⟨.cardRemove, reader⟩) rfl rfl rfl (by simp) rfl
    · cases h
      exact .quiet _ rfl rfl (by simp [EventThread.forwards])
  · cases h
    exact .add rfl rfl (by simp) rfl

theorem forall_mem_replace {α : Type*} {p : α → Prop} {l l' : List α} {x y : α}
    (h : ∀ u ∈ l ++ x :: l', p u) (hy : p y) : ∀ u ∈ l ++ y :: l', p u := by
  simp only [List.forall_mem_append, List.forall_mem_cons] at h ⊢
  exact ⟨h.1, hy, h.2.2⟩

theorem forall_mem_concat {α : Type*} {p : α → Prop} {l : List α} {x : α} (h : ∀ u ∈ l, p u)
    (hx : p x) : ∀ u ∈ l ++ [x], p u := by
  simp only [List.forall_mem_append, List.forall_mem_singleton]
  exact ⟨h, hx⟩

theorem Progress.threads {c c' : Client σ} {t t' : EventThread} (h : Progress c t t' c') :
    c'.threads = c.threads := by
  cases h <;> rfl

theorem threads_split {c c' : Client σ} {t t' : EventThread} {i : ℕ} (ht : c.threads[i]? = some t)
    (h : Progress c t t' c') :
    ∃ l l', c.threads = l ++ t :: l' ∧ c'.threads.set i t' = l ++ t' :: l' := by
  have hthreads := h.threads
  obtain ⟨hi, rfl⟩ := List.getElem?_eq_some_iff.1 ht
  obtain ⟨l, l', hsplit, -, hset⟩ := @List.exists_of_set _ i t' c.threads hi
  exact ⟨l, l', hsplit, hthreads ▸ hset⟩

/-- Nothing is under way while no reader is pending. -/
theorem VscSystem.Ok.adds_eq_nil {s : VscSystem σ} (h : s.Ok)
    (hnone : s.client.pendingReader = none) : s.adds = [] := by
  refine List.eq_nil_iff_forall_not_mem.2 fun r hr => ?_
  have := h.adds r hr
  rw [hnone] at this
  cases this

section Thread

variable {s : VscSystem σ} {t t' : EventThread} {l l' : List EventThread} {r : ℕ} {m : Sent}

theorem VscSystem.Ok.quiet (h : s.Ok) (hsplit : s.client.threads = l ++ t :: l')
    (events : List VEvent) (ht : t.adds = none) (ht' : t'.adds = none)
    (hforwards : ∀ e ∈ t'.forwards, e ∈ t.forwards
      ∨ s.client.readerId e.reader ≠ vscardUndefinedReaderId) :
    ({ s with client := { s.client with events := events, threads := l ++ t' :: l' } } :
      VscSystem σ).Ok := by
  have hadds := h.adds
  have hlen := h.adds_length
  have hthreads := h.threads
  simp only [VscSystem.adds, hsplit] at hadds hlen
  rw [hsplit] at hthreads
  refine ⟨h.taken_le, h.about, h.answers, ?_, ?_, h.grants, h.ids, ?_, h.sent⟩
  · simp only [VscSystem.adds]
    simpa [ht, ht'] using hadds
  · simp only [VscSystem.adds]
    simpa [ht, ht'] using hlen
  · refine forall_mem_replace hthreads fun e he => ?_
    rcases hforwards e he with he' | hid
    · exact hthreads t (by simp) e he'
    · exact h.ids _ hid

/-- A reader becomes pending: nothing was under way before, and now its `VSC_ReaderAdd` is. -/
theorem VscSystem.Ok.pend (h : s.Ok) (hsplit : s.client.threads = l ++ t :: l')
    (hnone : s.client.pendingReader = none) (ht : t.adds = none) (ht' : t'.adds = some r)
    (hforwards : t'.forwards = none) :
    ({ s with client := { s.client with pendingReader := some r, threads := l ++ t' :: l' } } :
      VscSystem σ).Ok := by
  have hnil := h.adds_eq_nil hnone
  have hthreads := h.threads
  simp only [VscSystem.adds, hsplit, List.filterMap_append, List.filterMap_cons, ht,
    List.append_eq_nil_iff] at hnil
  rw [hsplit] at hthreads
  obtain ⟨⟨hin, hout⟩, hl, hl'⟩ := hnil
  refine ⟨h.taken_le, h.about, h.answers, ?_, ?_, h.grants, h.ids, ?_, h.sent⟩
  · simp only [VscSystem.adds, List.filterMap_append, List.filterMap_cons, ht', hin, hout, hl, hl']
    intro x hx
    rw [List.mem_singleton.1 hx]
  · simp only [VscSystem.adds, List.filterMap_append, List.filterMap_cons, ht', hin, hout, hl, hl']
    exact le_rfl
  · exact forall_mem_replace hthreads (by rw [hforwards]; simp)

theorem VscSystem.Ok.drop_sent (h : s.Ok) (m : Sent) :
    (s.client.sent ++ [m]).drop s.taken = s.client.sent.drop s.taken ++ [m] :=
  List.drop_append_of_le_length h.taken_le

theorem VscSystem.Ok.taken_le_sent (h : s.Ok) (m : Sent) :
    s.taken ≤ (s.client.sent ++ [m]).length := by
  rw [List.length_append]
  exact Nat.le_add_right_of_le h.taken_le

/-- The `VSC_ReaderAdd` of a thread goes to the host. -/
theorem VscSystem.Ok.add (h : s.Ok) (hsplit : s.client.threads = l ++ t :: l')
    (ht : t.adds = some r) (hm : m.IsReaderAdd) (habout : m.about = some r) :
    ({ s with client := { s.client with
        sent := s.client.sent ++ [m], threads := l ++ .idle :: l' } } : VscSystem σ).Ok := by
  have hadds := h.adds
  have hlen := h.adds_length
  have hthreads := h.threads
  simp only [VscSystem.adds, hsplit] at hadds hlen
  rw [hsplit] at hthreads
  have hadd : Sent.adds m = some r := by rw [Sent.adds, if_pos hm, habout]
  refine ⟨h.taken_le_sent m, ?_, ?_, ?_, ?_, h.grants, h.ids, ?_, ?_⟩
  · exact forall_mem_concat h.about fun _ => by rw [habout]; exact Option.some_ne_none r
  · exact fun x hx q hq =>
      ⟨List.mem_append_left _ (h.answers x hx q hq).1, (h.answers x hx q hq).2⟩
  · intro x hx
    refine hadds x ?_
    simp only [VscSystem.adds, h.drop_sent, List.filterMap_append, List.filterMap_cons, hadd, ht,
      EventThread.adds_idle, List.filterMap_nil, List.mem_append, List.mem_cons] at hx ⊢
    tauto
  · simp only [VscSystem.adds, h.drop_sent, List.filterMap_append, List.filterMap_cons, hadd, ht,
      EventThread.adds_idle, List.filterMap_nil, List.length_append, List.length_cons,
      List.length_nil] at hlen ⊢
    omega
  · exact forall_mem_replace hthreads (by simp [EventThread.forwards])
  · exact forall_mem_concat h.sent fun _ _ => .inl hm

/-- An event of a reader that has an id is forwarded. -/
theorem VscSystem.Ok.forward (h : s.Ok) (hsplit : s.client.threads = l ++ t :: l') {e : VEvent}
    (ht : t.adds = none) (he : e ∈ t.forwards) (hm : ¬ m.IsReaderAdd)
    (habout : m.about = some e.reader) :
    ({ s with client := { s.client with
        sent := s.client.sent ++ [m], threads := l ++ .idle :: l' } } : VscSystem σ).Ok := by
  have hadds := h.adds
  have hlen := h.adds_length
  have hthreads := h.threads
  simp only [VscSystem.adds, hsplit] at hadds hlen
  rw [hsplit] at hthreads
  have hadd : Sent.adds m = none := by rw [Sent.adds, if_neg hm]
  refine ⟨h.taken_le_sent m, ?_, ?_, ?_, ?_, h.grants, h.ids, ?_, ?_⟩
  · exact forall_mem_concat h.about fun hadd => absurd hadd hm
  · exact fun x hx q hq =>
      ⟨List.mem_append_left _ (h.answers x hx q hq).1, (h.answers x hx q hq).2⟩
  · intro x hx
    refine hadds x ?_
    simp only [VscSystem.adds, h.drop_sent, List.filterMap_append, List.filterMap_cons, hadd, ht,
      EventThread.adds_idle, List.filterMap_nil, List.append_nil] at hx ⊢
    exact hx
  · simp only [VscSystem.adds, h.drop_sent, List.filterMap_append, List.filterMap_cons, hadd, ht,
      EventThread.adds_idle, List.filterMap_nil, List.append_nil] at hlen ⊢
    exact hlen
  · exact forall_mem_replace hthreads (by simp [EventThread.forwards])
  · refine forall_mem_concat h.sent fun x hx => ?_
    rw [habout, Option.some.injEq] at hx
    exact .inr (hx ▸ hthreads t (by simp) e he)

/-- An event thread goes on. -/
theorem VscSystem.Ok.thread {c : Client σ} {i : ℕ} (h : s.Ok)
    (ht : s.client.threads[i]? = some t) (hp : Progress s.client t t' c) :
    ({ s with client := { c with threads := c.threads.set i t' } } : VscSystem σ).Ok := by
  obtain ⟨l, l', hsplit, hset⟩ := threads_split ht hp
  rw [hset]
  rcases hp with ⟨events, ht, ht', hforwards⟩ | ⟨hnone, ht, ht', hforwards⟩
    | ⟨ht, rfl, hm, habout⟩ | ⟨ht, rfl, he, hm, habout⟩
  · exact h.quiet hsplit events ht ht' hforwards
  · exact h.pend hsplit hnone ht ht' hforwards
  · exact h.add hsplit ht hm habout
  · exact h.forward hsplit ht he hm habout

end Thread

/-- An element goes from the front of one list to the end of the one before it. -/
theorem filterMap_move {α β γ : Type*} (f : α → Option γ) (g : β → Option γ) (l : List α)
    (l' : List β) {x : α} {y : β} (h : f x = g y) :
    (l ++ [x]).filterMap f ++ l'.filterMap g = l.filterMap f ++ (y :: l').filterMap g := by
  rw [List.filterMap_append, List.append_assoc, List.filterMap_cons, List.filterMap_cons, h]
  rcases g y <;> simp

/-- The host takes a message, and answers it if it has to. -/
theorem VscSystem.Ok.answer {s s' : VscSystem σ} {readerId length : UInt32}
    {buffer : ByteArr apduBufSize} (h : s.Ok)
    (hs : s.step readers (.answer readerId length buffer) = some s') : s'.Ok := by
  simp only [VscSystem.step, Option.bind_eq_bind, Option.bind_eq_some_iff] at hs
  obtain ⟨m, hm, hs⟩ := hs
  obtain ⟨hlt, rfl⟩ := List.getElem?_eq_some_iff.1 hm
  have hdrop := List.drop_eq_getElem_cons hlt
  have hadds := h.adds
  have hlen := h.adds_length
  simp only [VscSystem.adds, hdrop] at hadds hlen
  split_ifs at hs with hanswered <;> cases hs
  · have hsame := filterMap_move (fun m : Incoming => m.answers.bind Sent.adds) Sent.adds s.incoming
      (s.client.sent.drop (s.taken + 1)) (y := s.client.sent[s.taken])
      (x := ⟨⟨VSCMsgType.error.value, readerId, length⟩, buffer, some _⟩) rfl
    refine ⟨hlt, h.about, ?_, ?_, ?_, h.grants, h.ids, h.threads, h.sent⟩
    · refine forall_mem_concat h.answers fun q hq => ?_
      cases hq
      exact ⟨List.getElem_mem hlt, rfl⟩
    · simp only [VscSystem.adds]
      rwa [hsame]
    · simp only [VscSystem.adds]
      rwa [hsame]
  · have hadd : Sent.adds s.client.sent[s.taken] = none := by
      rw [Sent.adds, if_neg]
      intro hadd
      refine hanswered ?_
      rw [Sent.Answered, show _ = _ from hadd]
      exact List.mem_cons_self
    rw [List.filterMap_cons, hadd] at hadds hlen
    exact ⟨hlt, h.about, h.answers, hadds, hlen, h.grants, h.ids, h.threads, h.sent⟩

/-- What the client does with a message that is no answer. -/
theorem handle_eq_ok_of_ne_error {c c' : Client σ} {hd : VSCMsgHeader} {b : Bytes} {goesOn : Bool}
    (h : c.handle readers hd b = .ok (goesOn, c')) (hne : hd.type ≠ VSCMsgType.error.value) :
    ∃ l l' world, c' = { c with sent := c.sent ++ l, threads := c.threads ++ l', world := world }
      ∧ (∀ m ∈ l, m.about = none ∧ ¬ m.IsReaderAdd) ∧ ∀ t ∈ l', t = .idle := by
  unfold Client.handle at h
  split_ifs at h
  · obtain ⟨command, -, h⟩ := bind_eq_ok.1 h
    cases h
    unfold Client.onApdu
    dsimp only
    split_ifs
    · exact ⟨_, [], _, by rw [List.append_nil c.threads]; rfl, by simp, by simp⟩
    · exact ⟨_, [], _, by rw [List.append_nil c.threads]; rfl, by simp, by simp⟩
  · cases h
    exact ⟨_, [], _, by rw [List.append_nil c.threads]; rfl, by simp, by simp⟩
  · obtain ⟨init, -, h⟩ := bind_eq_ok.1 h
    obtain ⟨r, -, h⟩ := bind_eq_ok.1 h
    rcases r with _ | init'
    · cases h
      exact ⟨[], [], c.world, by rw [List.append_nil, List.append_nil], by simp, by simp⟩
    · cases h
      exact ⟨_, _, _, rfl, by simp, by simp⟩

theorem handle_error {c c' : Client σ} {hd : VSCMsgHeader} {b : ByteArr apduBufSize}
    {goesOn : Bool} (h : c.handle readers hd b.1 = .ok (goesOn, c'))
    (herror : hd.type = VSCMsgType.error.value) : c' = c.onError hd (leUInt32 (b.1.take 4)) := by
  unfold Client.handle at h
  rw [herror, if_neg (by decide), if_neg (by decide), if_pos rfl] at h
  have hb := b.2
  rw [readBytes_of_le (by rw [hb]; decide), ok_bind, List.drop_zero] at h
  cases h
  rfl

theorem VscSystem.Ok.send {s s' : VscSystem σ} {header : VSCMsgHeader}
    {buffer : ByteArr apduBufSize} (h : s.Ok)
    (hs : s.step readers (.send header buffer) = some s') : s'.Ok := by
  simp only [VscSystem.step] at hs
  split_ifs at hs
  cases hs
  refine ⟨h.taken_le, h.about, ?_, ?_, ?_, h.grants, h.ids, h.threads, h.sent⟩
  · exact forall_mem_concat h.answers fun q hq => by cases hq
  · simpa [VscSystem.adds] using h.adds
  · simpa [VscSystem.adds] using h.adds_length

theorem VscSystem.Granted.of_answered {s s' : VscSystem σ} {r : ℕ} {l : List (Sent × UInt32)}
    (h : s.Granted r) (heq : s'.answered = s.answered ++ l) : s'.Granted r := by
  obtain ⟨m, hadd, habout, hmem⟩ := h
  exact ⟨m, hadd, habout, heq ▸ List.mem_append_left _ hmem⟩

/-- The readers whose `VSC_ReaderAdd` is under way when these messages are still to come. -/
def VscSystem.addsWith (s : VscSystem σ) (incoming : List Incoming) : List ℕ :=
  incoming.filterMap (fun m => m.answers.bind Sent.adds)
    ++ (s.client.sent.drop s.taken).filterMap Sent.adds
    ++ s.client.threads.filterMap EventThread.adds

section Answer

variable {s : VscSystem σ} {m : Incoming} {incoming : List Incoming}

theorem adds_of_incoming (hin : s.incoming = m :: incoming) :
    s.adds = (m.answers.bind Sent.adds).toList ++ s.addsWith incoming := by
  rw [VscSystem.adds, hin, List.filterMap_cons, VscSystem.addsWith]
  rcases m.answers.bind Sent.adds <;> simp

/-- A pending reader is taken out of the slot by the answer to its own message. -/
theorem VscSystem.Ok.answers_own {r : ℕ} (h : s.Ok) (hin : s.incoming = m :: incoming)
    (hanswers : s.AnswersAdd .receive) (herror : m.IsError)
    (hr : s.client.pendingReader = some r)
    (hcode : m.code = VSCErrorCode.success ∨ m.code = VSCErrorCode.cannotAddMoreReaders) :
    s.addsWith incoming = [] ∧ ∃ q, m.answers = some q ∧ q.IsReaderAdd ∧ q.about = some r := by
  have hans := h.answers
  rw [hin, List.forall_mem_cons] at hans
  obtain ⟨q, hq, hadd⟩ := hanswers rfl m (by rw [hin]; rfl) herror hcode
    (by rw [hr]; exact Option.some_ne_none r)
  obtain ⟨x, hx⟩ := Option.ne_none_iff_exists'.1 (h.about q (hans.1 q hq).1 hadd)
  have hqadds : m.answers.bind Sent.adds = some x := by
    rw [Option.mem_def.1 hq, Option.bind_some, Sent.adds, if_pos hadd, hx]
  have hadds := adds_of_incoming hin
  rw [hqadds, Option.toList_some, List.singleton_append] at hadds
  have hlen := h.adds_length
  rw [hadds, List.length_cons] at hlen
  have hxr := h.adds x (hadds ▸ List.mem_cons_self)
  refine ⟨List.eq_nil_of_length_eq_zero (by omega), q, hq, hadd, ?_⟩
  rw [hx, ← hxr, hr]

/-- What an answer leaves: the slot may be empty and the pending reader may have got an id. -/
theorem VscSystem.Ok.ofAnswer {pendingReader : Option ℕ} {readerId : ℕ → UInt32}
    {grants : List (ℕ × Option Sent)} (h : s.Ok) (hin : s.incoming = m :: incoming)
    (hadds : ∀ r ∈ s.addsWith incoming, pendingReader = some r)
    (hgrants : ∀ g ∈ grants, ∃ q, g.2 = some q ∧ q.IsReaderAdd ∧ q.about = some g.1
      ∧ (q, VSCErrorCode.success) ∈ m.answers.toList.map fun q => (q, m.code))
    (hids : ∀ r, readerId r ≠ vscardUndefinedReaderId →
      s.client.readerId r ≠ vscardUndefinedReaderId ∨ ∃ g ∈ grants, g.1 = r) :
    VscSystem.Ok { s with
      client := { s.client with pendingReader := pendingReader, readerId := readerId }
      incoming := incoming
      answered := s.answered ++ m.answers.toList.map fun q => (q, m.code)
      grants := s.grants ++ grants } := by
  have hans := h.answers
  rw [hin, List.forall_mem_cons] at hans
  have hlen := h.adds_length
  rw [adds_of_incoming hin, List.length_append] at hlen
  refine ⟨h.taken_le, h.about, hans.2, hadds, Nat.le_of_add_left_le hlen, ?_, ?_, ?_, ?_⟩
  · refine List.forall_mem_append.2 ⟨fun g hg => ?_, fun g hg => ?_⟩
    · obtain ⟨q, hq, hadd, habout, hmem⟩ := h.grants g hg
      exact ⟨q, hq, hadd, habout, List.mem_append_left _ hmem⟩
    · obtain ⟨q, hq, hadd, habout, hmem⟩ := hgrants g hg
      exact ⟨q, hq, hadd, habout, List.mem_append_right _ hmem⟩
  · intro r hr
    rcases hids r hr with hr | ⟨g, hg, rfl⟩
    · exact (h.ids r hr).of_answered rfl
    · obtain ⟨q, -, hadd, habout, hmem⟩ := hgrants g hg
      exact ⟨q, hadd, habout, List.mem_append_right _ hmem⟩
  · exact fun t ht e he => (h.threads t ht e he).of_answered rfl
  · exact fun q hq r hr => (h.sent q hq r hr).imp id fun hr => hr.of_answered rfl

/-- The client takes an answer. -/
theorem VscSystem.Ok.receiveError (h : s.Ok) (hin : s.incoming = m :: incoming)
    (hanswers : s.AnswersAdd .receive) (herror : m.IsError) :
    VscSystem.Ok { s with
      client := s.client.onError m.header m.code
      incoming := incoming
      answered := s.answered ++ m.answers.toList.map fun q => (q, m.code)
      grants := s.grants ++ s.client.grants m } := by
  have hsame : ∀ r ∈ s.addsWith incoming, s.client.pendingReader = some r := fun r hr =>
    h.adds r (by rw [adds_of_incoming hin]; exact List.mem_append_right _ hr)
  have hkept : ∀ r, s.client.readerId r ≠ vscardUndefinedReaderId →
      s.client.readerId r ≠ vscardUndefinedReaderId
        ∨ ∃ g ∈ ([] : List (ℕ × Option Sent)), g.1 = r :=
    fun r hr => .inl hr
  unfold Client.onError Client.grants
  by_cases hsuccess : m.code = VSCErrorCode.success
  · rw [if_pos hsuccess, if_pos ⟨herror, hsuccess⟩]
    rcases hp : s.client.pendingReader with _ | r
    · exact h.ofAnswer hin (hp ▸ hsame) (by simp) hkept
    · obtain ⟨hnil, q, hq, hadd, habout⟩ := h.answers_own hin hanswers herror hp (.inl hsuccess)
      refine h.ofAnswer hin (by simp [hnil]) ?_ ?_
      · simp only [Option.toList_some, List.map_cons, List.map_nil, List.forall_mem_singleton]
        exact ⟨q, hq, hadd, habout, by simp [hq, hsuccess]⟩
      · intro x hx
        rcases eq_or_ne x r with rfl | hne
        · exact .inr ⟨_, List.mem_singleton.2 rfl, rfl⟩
        · rw [Function.update_of_ne hne] at hx
          exact .inl hx
  · have hnone : ¬ (m.IsError ∧ m.code = VSCErrorCode.success) := fun h' => hsuccess h'.2
    rw [if_neg hsuccess, if_neg hnone]
    by_cases hcannot : m.code = VSCErrorCode.cannotAddMoreReaders
    · rw [if_pos hcannot]
      refine h.ofAnswer hin (fun r hr => ?_) (by simp) hkept
      rw [(h.answers_own hin hanswers herror (hsame r hr) (.inr hcannot)).1] at hr
      cases hr
    · rw [if_neg hcannot]
      exact h.ofAnswer hin hsame (by simp) hkept

end Answer

/-- The client takes a message of the host. -/
theorem VscSystem.Ok.receive {s s' : VscSystem σ} (h : s.Ok) (hanswers : s.AnswersAdd .receive)
    (hs : s.step readers .receive = some s') : s'.Ok := by
  simp only [VscSystem.step] at hs
  rcases hin : s.incoming with _ | ⟨m, incoming⟩ <;> rw [hin] at hs
  · cases hs
  dsimp only at hs
  rcases hr : s.client.handle readers m.header m.pbSendBuffer.1 with e | ⟨goesOn, c⟩ <;>
    rw [hr] at hs <;> cases hs
  have hadds := h.adds
  have hlen := h.adds_length
  have hans := h.answers
  simp only [VscSystem.adds, hin] at hadds hlen
  rw [hin, List.forall_mem_cons] at hans
  by_cases herror : m.IsError
  · rw [handle_error hr herror]
    exact h.receiveError hin hanswers herror
  · have hnone : m.answers = none := by
      rcases hm : m.answers with _ | q
      · rfl
      · exact absurd (hans.1 q hm).2 herror
    obtain ⟨l, l', world, rfl, hl, hl'⟩ := handle_eq_ok_of_ne_error hr herror
    have hl₀ : l.filterMap Sent.adds = [] := by
      rw [List.filterMap_eq_nil_iff]
      intro q hq
      rw [Sent.adds, if_neg (hl q hq).2]
    have hl₁ : l'.filterMap EventThread.adds = [] := by
      rw [List.filterMap_eq_nil_iff]
      intro t ht
      rw [hl' t ht, EventThread.adds_idle]
    have hanswered : s.answered ++ m.answers.toList.map (fun q => (q, m.code)) = s.answered := by
      rw [hnone]
      exact List.append_nil _
    have hgrants : s.grants ++ s.client.grants m = s.grants := by
      rw [Client.grants, if_neg fun h' => herror h'.1, List.append_nil]
    simp only [hanswered, hgrants]
    refine ⟨?_, ?_, ?_, ?_, ?_, h.grants, h.ids, ?_, ?_⟩
    · rw [List.length_append]
      exact Nat.le_add_right_of_le h.taken_le
    · exact List.forall_mem_append.2 ⟨h.about, fun q hq hadd => absurd hadd (hl q hq).2⟩
    · exact fun x hx q hq => ⟨List.mem_append_left _ (hans.2 x hx q hq).1, (hans.2 x hx q hq).2⟩
    · simpa only [VscSystem.adds, List.drop_append_of_le_length h.taken_le, List.filterMap_append,
        List.filterMap_cons, hnone, Option.bind_none, hl₀, hl₁, List.append_nil] using hadds
    · simpa only [VscSystem.adds, List.drop_append_of_le_length h.taken_le, List.filterMap_append,
        List.filterMap_cons, hnone, Option.bind_none, hl₀, hl₁, List.append_nil] using hlen
    · refine List.forall_mem_append.2 ⟨h.threads, fun t ht => ?_⟩
      rw [hl' t ht]
      intro e he
      cases he
    · refine List.forall_mem_append.2 ⟨h.sent, fun q hq r hr => ?_⟩
      rw [(hl q hq).1] at hr
      cases hr

section Runs

theorem VscSystem.Ok.step {s s' : VscSystem σ} {a : VscAction σ} (h : s.Ok)
    (hanswers : s.AnswersAdd a) (hs : s.step readers a = some s') : s'.Ok := by
  rcases a with event | world | ⟨i, atr⟩ | ⟨readerId, length, buffer⟩ | ⟨header, buffer⟩ | _
  · cases hs
    exact ⟨h.taken_le, h.about, h.answers, h.adds, h.adds_length, h.grants, h.ids, h.threads,
      h.sent⟩
  · cases hs
    exact ⟨h.taken_le, h.about, h.answers, h.adds, h.adds_length, h.grants, h.ids, h.threads,
      h.sent⟩
  · simp only [VscSystem.step, Option.bind_eq_bind, Option.bind_eq_some_iff] at hs
    obtain ⟨t, ht, ⟨t', c⟩, hprogress, hs⟩ := hs
    cases hs
    exact h.thread ht (threadStep_progress hprogress)
  · exact h.answer hs
  · exact h.send hs
  · exact h.receive hanswers hs

/-- As long as every success, and every refusal because of too many readers, that meets a pending
reader answers a `VSC_ReaderAdd`, ids are granted by the reply to the reader's own. -/
theorem ownGrants_of_reachable {s : VscSystem σ}
    (h : VscReachable readers VscSystem.AnswersAdd s) : s.OwnGrants := by
  suffices hok : s.Ok from hok.ownGrants
  induction h with
  | start world => exact VscSystem.start_ok world
  | step _ hP hs ih => exact ih.step hP hs

theorem VscReachable.follow {P : VscSystem σ → VscAction σ → Prop} [∀ s a, Decidable (P s a)] :
    ∀ {s s' : VscSystem σ} {as : List (VscAction σ)}, VscReachable readers P s →
      s.follow readers P as = some s' → VscReachable readers P s'
  | s, s', [], h, hf => by
    cases hf
    exact h
  | s, s', a :: as, h, hf => by
    unfold VscSystem.follow at hf
    split_ifs at hf with hP
    obtain ⟨s₁, hs, hf⟩ := Option.bind_eq_some_iff.1 hf
    exact (h.step hP hs).follow hf

/-- A buffer that starts with these bytes. -/
def bufferOf (b : Bytes) (h : b.length ≤ apduBufSize) : ByteArr apduBufSize :=
  ⟨b ++ List.replicate (apduBufSize - b.length) 0, by
    rw [List.length_append, List.length_replicate, Nat.add_sub_cancel' h]⟩

/-- The host's first message, and what it makes the client do. -/
def connect : List (VscAction Unit) :=
  [.send ⟨VSCMsgType.init.value, 0, 12⟩ (bufferOf vscardMagic (by decide)), .receive]

/-- A reader is inserted, and its `VSC_ReaderAdd` sent. -/
def addReader : List (VscAction Unit) :=
  [.event ⟨.readerInsert, 0⟩, .thread 0 [], .thread 0 [], .thread 0 [], .thread 0 []]

/-- The host answers the next message with a success, and the client processes it. -/
def success : List (VscAction Unit) := [.answer 0 4 (bufferOf [] (by decide)), .receive]

theorem ownGrants_connect_add : ∃ s : VscSystem Unit,
    VscReachable .empty VscSystem.AnswersAdd s ∧ s.grants.length = 1 ∧ s.OwnGrants := by
  have hgrants : ((VscSystem.start ()).follow .empty VscSystem.AnswersAdd
      (connect ++ success ++ addReader ++ success)).map (fun s => s.grants.length) = some 1 := by
    decide +kernel
  obtain ⟨s, hs, hlen⟩ := Option.map_eq_some_iff.1 hgrants
  have hreach := VscReachable.follow (.start ()) hs
  exact ⟨s, hreach, hlen, ownGrants_of_reachable hreach⟩

/-- The answer to the `VSC_ReaderRemove` that was sent first grants an id. -/
theorem readerRemove_grants : ¬ ∀ s : VscSystem Unit,
    VscReachable .empty (fun _ _ => True) s → s.OwnGrants := by
  intro h
  have hgrants : ((VscSystem.start ()).follow .empty (fun _ _ => True)
      (connect ++ addReader ++ success)).map (fun s => s.grants)
        = some [(0, some ⟨⟨VSCMsgType.readerRemove.value, 0, 0⟩, [], none⟩)] := by
    decide +kernel
  obtain ⟨s, hs, hgrants⟩ := Option.map_eq_some_iff.1 hgrants
  have hown := (h s (VscReachable.follow (.start ()) hs)).grants _
    (hgrants ▸ List.mem_singleton.2 rfl)
  obtain ⟨m, hm, hadd, -⟩ := hown
  cases hm
  exact absurd hadd (by decide)

end Runs

end Libcacard
