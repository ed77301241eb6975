import Libcacard.Lib.Heap

/-!
# Runs of a machine

A machine takes an input, answers with an output and goes to a new state, or stops with a fault. A
run feeds it a list of inputs. What every step keeps, every run keeps; what makes a step succeed
makes a run succeed whose steps all have it; and two machines that go in step give one output.
-/

namespace Machine

variable {σ ι ο σ₁ σ₂ : Type}

def run (step : σ → ι → Except Fault (ο × σ)) : σ → List ι → Except Fault (List ο × σ)
  | s, [] => .ok ([], s)
  | s, i :: is => do
    let (o, s) ← step s i
    let (os, s) ← run step s is
    return (o :: os, s)

/-- Every step of a run from `s` starts where `P` holds of the state and the input. -/
def Along (step : σ → ι → Except Fault (ο × σ)) (P : σ → ι → Prop) : σ → List ι → Prop
  | _, [] => True
  | s, i :: is => P s i ∧ ∀ o s', step s i = .ok (o, s') → Along step P s' is

/-- A run is looked along by running it. -/
def Along.decide (step : σ → ι → Except Fault (ο × σ)) (P : σ → ι → Prop)
    [∀ s i, Decidable (P s i)] : ∀ s is, Decidable (Along step P s is)
  | _, [] => .isTrue trivial
  | s, i :: is =>
    match h : step s i with
    | .error _ =>
      decidable_of_iff (P s i) ⟨fun hP => ⟨hP, fun o s' h' => by rw [h] at h'; cases h'⟩, And.left⟩
    | .ok (o, s') =>
      have := Along.decide step P s' is
      decidable_of_iff (P s i ∧ Along step P s' is)
        ⟨fun hP => ⟨hP.1, fun o₁ s₁ h' => by rw [h] at h'; cases h'; exact hP.2⟩,
          fun hP => ⟨hP.1, hP.2 o s' h⟩⟩

instance {step : σ → ι → Except Fault (ο × σ)} {P : σ → ι → Prop} [∀ s i, Decidable (P s i)]
    (s : σ) (is : List ι) : Decidable (Along step P s is) := Along.decide step P s is

variable {step : σ → ι → Except Fault (ο × σ)} {s s' : σ} {i : ι} {is js : List ι} {os : List ο}

theorem run_cons_eq_ok : run step s (i :: is) = .ok (os, s') ↔
    ∃ o s₁ os', step s i = .ok (o, s₁) ∧ run step s₁ is = .ok (os', s') ∧ os = o :: os' := by
  simp only [run, bind_eq_ok, pure_eq, Except.ok.injEq, Prod.mk.injEq]
  constructor
  · rintro ⟨⟨o, s₁⟩, h, ⟨os', s₂⟩, h', rfl, rfl⟩
    exact ⟨o, s₁, os', h, h', rfl⟩
  · rintro ⟨o, s₁, os', h, h', rfl⟩
    exact ⟨⟨o, s₁⟩, h, ⟨os', s'⟩, h', rfl, rfl⟩

theorem run_append_eq_ok : ∀ {s : σ} {is : List ι} {os : List ο},
    run step s (is ++ js) = .ok (os, s') ↔
      ∃ os₁ s₁ os₂, run step s is = .ok (os₁, s₁) ∧ run step s₁ js = .ok (os₂, s')
        ∧ os = os₁ ++ os₂
  | s, [], os => by simp [run]
  | s, i :: is, os => by
    simp only [List.cons_append, run_cons_eq_ok, run_append_eq_ok]
    constructor
    · rintro ⟨o, s₁, os', h, ⟨os₁, s₂, os₂, h₁, h₂, rfl⟩, rfl⟩
      exact ⟨o :: os₁, s₂, os₂, ⟨o, s₁, os₁, h, h₁, rfl⟩, h₂, rfl⟩
    · rintro ⟨os₁, s₂, os₂, ⟨o, s₁, os', h, h₁, rfl⟩, h₂, rfl⟩
      exact ⟨o, s₁, os' ++ os₂, h, ⟨os', s₂, os₂, h₁, h₂, rfl⟩, rfl⟩

theorem Along.and {P Q : σ → ι → Prop} : ∀ {s : σ} {is : List ι}, Along step P s is →
    Along step Q s is → Along step (fun s i => P s i ∧ Q s i) s is
  | _, [], _, _ => trivial
  | _, _ :: _, hP, hQ =>
    ⟨⟨hP.1, hQ.1⟩, fun o s' h => (hP.2 o s' h).and (hQ.2 o s' h)⟩

/-- What the steps of a run keep holds after it. -/
theorem run_invariant {I : σ → Prop} {P : σ → ι → Prop}
    (h : ∀ s i o s', I s → P s i → step s i = .ok (o, s') → I s') :
    ∀ {s : σ} {is : List ι} {os : List ο}, I s → Along step P s is →
      run step s is = .ok (os, s') → I s'
  | s, [], os, hs, _, hr => by
    simp only [run, Except.ok.injEq, Prod.mk.injEq] at hr
    exact hr.2 ▸ hs
  | s, i :: is, os, hs, hP, hr => by
    obtain ⟨o, s₁, os', hstep, hrun, rfl⟩ := run_cons_eq_ok.1 hr
    exact run_invariant h (h _ _ _ _ hs hP.1 hstep) (hP.2 _ _ hstep) hrun

/-- What each step keeps of the inputs so far and the state holds after a run. -/
theorem run_history {I : List ι → σ → Prop}
    (h : ∀ is s i o s', I is s → step s i = .ok (o, s') → I (is ++ [i]) s') :
    ∀ {is : List ι} {s : σ} {js : List ι} {os : List ο}, I is s →
      run step s js = .ok (os, s') → I (is ++ js) s'
  | is, s, [], os, hs, hr => by
    simp only [run, Except.ok.injEq, Prod.mk.injEq] at hr
    rw [List.append_nil]
    exact hr.2 ▸ hs
  | is, s, j :: js, os, hs, hr => by
    obtain ⟨o, s₁, os', hstep, hrun, rfl⟩ := run_cons_eq_ok.1 hr
    have := run_history h (h _ _ _ _ _ hs hstep) hrun
    rwa [List.append_assoc, List.singleton_append] at this

/-- What each step keeps of the run so far holds after it. -/
theorem run_induction {I : List ι → σ → Prop} (hs : I [] s)
    (h : ∀ is os s₁ i o s₂, run step s is = .ok (os, s₁) → I is s₁ → step s₁ i = .ok (o, s₂) →
      I (is ++ [i]) s₂) (hr : run step s is = .ok (os, s')) : I is s' := by
  refine (run_history (I := fun js s₁ => (∃ os, run step s js = .ok (os, s₁)) ∧ I js s₁) ?_
    ⟨⟨[], rfl⟩, hs⟩ hr).2
  rintro js s₁ j o s₂ ⟨⟨os, hrun⟩, hI⟩ hstep
  exact ⟨⟨os ++ [o], run_append_eq_ok.2 ⟨os, s₁, [o], hrun,
    run_cons_eq_ok.2 ⟨o, s₂, [], hstep, rfl, rfl⟩, rfl⟩⟩, h js os s₁ j o s₂ hrun hI hstep⟩

/-- A run succeeds whose steps all meet what makes a step succeed, and its outputs are good. -/
theorem run_total {I : σ → Prop} {P : σ → ι → Prop} {Good : ι → ο → Prop}
    (h : ∀ s i, I s → P s i → ∃ o s', step s i = .ok (o, s') ∧ I s' ∧ Good i o) :
    ∀ {s : σ} {is : List ι}, I s → Along step P s is →
      ∃ os s', run step s is = .ok (os, s') ∧ I s' ∧ List.Forall₂ Good is os
  | s, [], hs, _ => ⟨[], s, rfl, hs, .nil⟩
  | s, i :: is, hs, hP => by
    obtain ⟨o, s₁, hstep, hs₁, hgood⟩ := h s i hs hP.1
    obtain ⟨os, s', hrun, hs', hgoods⟩ := run_total h hs₁ (hP.2 o s₁ hstep)
    exact ⟨o :: os, s', run_cons_eq_ok.2 ⟨o, s₁, os, hstep, hrun, rfl⟩, hs', .cons hgood hgoods⟩

/-- What a step that succeeds shows holds all along a run that succeeds. -/
theorem run_along {I : σ → Prop} {P : σ → ι → Prop}
    (h : ∀ s i o s', I s → step s i = .ok (o, s') → I s' ∧ P s i) :
    ∀ {s : σ} {is : List ι} {os : List ο}, I s → run step s is = .ok (os, s') →
      Along step P s is
  | _, [], _, _, _ => trivial
  | s, i :: is, os, hs, hr => by
    obtain ⟨o, s₁, os', hstep, hrun, rfl⟩ := run_cons_eq_ok.1 hr
    obtain ⟨hs₁, hP⟩ := h _ _ _ _ hs hstep
    refine ⟨hP, fun o' s₁' hstep' => ?_⟩
    obtain ⟨-, rfl⟩ := Prod.mk.inj (Except.ok.inj (hstep.symm.trans hstep'))
    exact run_along h hs₁ hrun

/-- A step of a run from `s` started where `P` holds, and every step after it where `Q` does. -/
def Since (step : σ → ι → Except Fault (ο × σ)) (P Q : σ → ι → Prop) (s : σ) (is : List ι) :
    Prop :=
  ∃ before i after os s₁ o s₂, is = before ++ i :: after ∧ run step s before = .ok (os, s₁)
    ∧ P s₁ i ∧ step s₁ i = .ok (o, s₂) ∧ Along step Q s₂ after

theorem along_iff {P : σ → ι → Prop} : ∀ {s : σ} {is : List ι}, Along step P s is ↔
    ∀ before i after os s₁, is = before ++ i :: after → run step s before = .ok (os, s₁) → P s₁ i
  | s, [] => iff_of_true trivial fun before i after _ _ h => by simp at h
  | s, i :: is => by
    constructor
    · rintro ⟨hi, hrest⟩ before j after os s₁ heq hrun
      rcases before with _ | ⟨b, before⟩
      · simp only [run, Except.ok.injEq, Prod.mk.injEq] at hrun
        obtain ⟨-, rfl⟩ := hrun
        obtain ⟨rfl, -⟩ := List.cons.inj heq
        exact hi
      · obtain ⟨rfl, htail⟩ := List.cons.inj heq
        obtain ⟨o, s₂, os', hstep, hrun, -⟩ := run_cons_eq_ok.1 hrun
        exact along_iff.1 (hrest o s₂ hstep) before j after os' s₁ htail hrun
    · refine fun h => ⟨h [] i is [] s rfl rfl, fun o s' hstep => along_iff.2 ?_⟩
      rintro before j after os s₁ rfl hrun
      exact h (i :: before) j after (o :: os) s₁ rfl
        (run_cons_eq_ok.2 ⟨o, s', os, hstep, hrun, rfl⟩)

theorem Along.append {P : σ → ι → Prop} : ∀ {s : σ} {is : List ι} {os : List ο},
    Along step P s is → run step s is = .ok (os, s') → P s' i → Along step P s (is ++ [i])
  | s, [], os, _, hr, hi => by
    simp only [run, Except.ok.injEq, Prod.mk.injEq] at hr
    obtain ⟨-, rfl⟩ := hr
    exact ⟨hi, fun _ _ _ => trivial⟩
  | s, j :: is, os, hP, hr, hi => by
    obtain ⟨o, s₁, os', hstep, hrun, -⟩ := run_cons_eq_ok.1 hr
    refine ⟨hP.1, fun o' s₁' hstep' => ?_⟩
    obtain ⟨-, rfl⟩ := Prod.mk.inj (Except.ok.inj (hstep.symm.trans hstep'))
    exact (hP.2 o s₁ hstep).append hrun hi

/-- What holds along a run holds along its first part and then along the rest. -/
theorem Along.split {P : σ → ι → Prop} : ∀ {s : σ} {is : List ι} {os : List ο},
    Along step P s (is ++ js) → run step s is = .ok (os, s') →
      Along step P s is ∧ Along step P s' js
  | s, [], os, hP, hr => by
    simp only [run, Except.ok.injEq, Prod.mk.injEq] at hr
    obtain ⟨-, rfl⟩ := hr
    exact ⟨trivial, hP⟩
  | s, i :: is, os, hP, hr => by
    obtain ⟨o, s₁, os', hstep, hrun, -⟩ := run_cons_eq_ok.1 hr
    obtain ⟨hfirst, hrest⟩ := (hP.2 o s₁ hstep).split hrun
    refine ⟨⟨hP.1, fun o' s₁' hstep' => ?_⟩, hrest⟩
    obtain ⟨-, rfl⟩ := Prod.mk.inj (Except.ok.inj (hstep.symm.trans hstep'))
    exact hfirst

theorem since_now {P Q : σ → ι → Prop} {o : ο} {s₁ s₂ : σ} (hr : run step s is = .ok (os, s₁))
    (hP : P s₁ i) (hstep : step s₁ i = .ok (o, s₂)) : Since step P Q s (is ++ [i]) :=
  ⟨is, i, [], os, s₁, o, s₂, rfl, hr, hP, hstep, trivial⟩

theorem Since.append {P Q : σ → ι → Prop} (h : Since step P Q s is)
    (hr : run step s is = .ok (os, s')) (hQ : Q s' i) : Since step P Q s (is ++ [i]) := by
  obtain ⟨before, j, after, os₁, s₁, o, s₂, rfl, hbefore, hP, hj, hafter⟩ := h
  obtain ⟨os₂, s₃, os₃, hbefore', hrest, -⟩ := run_append_eq_ok.1 hr
  obtain ⟨-, rfl⟩ := Prod.mk.inj (Except.ok.inj (hbefore.symm.trans hbefore'))
  obtain ⟨o', s₄, os₄, hj', hrun, -⟩ := run_cons_eq_ok.1 hrest
  obtain ⟨-, rfl⟩ := Prod.mk.inj (Except.ok.inj (hj.symm.trans hj'))
  exact ⟨before, j, after ++ [i], os₁, s₁, o, s₂, by rw [List.append_assoc, List.cons_append],
    hbefore, hP, hj, hafter.append hrun hQ⟩

/-- A run has no fault, and every state it is in is good. -/
def Safe (step : σ → ι → Except Fault (ο × σ)) (Good : σ → Prop) : σ → List ι → Prop
  | s, [] => Good s
  | s, i :: is => Good s ∧ ∃ o s', step s i = .ok (o, s') ∧ Safe step Good s' is

theorem Safe.good {Good : σ → Prop} : ∀ {s : σ} {is : List ι}, Safe step Good s is → Good s
  | _, [], h => h
  | _, _ :: _, h => h.1

theorem Safe.run {Good : σ → Prop} : ∀ {s : σ} {is : List ι}, Safe step Good s is →
    ∃ os s', run step s is = .ok (os, s') ∧ Good s'
  | s, [], h => ⟨[], s, rfl, h⟩
  | _, _ :: _, ⟨_, o, s₁, hstep, h⟩ =>
    let ⟨os, s', hrun, hgood⟩ := h.run
    ⟨o :: os, s', run_cons_eq_ok.2 ⟨o, s₁, os, hstep, hrun, rfl⟩, hgood⟩

/-- A run is safe whose steps all meet the condition that makes a step safe. -/
theorem Along.safe {I Good : σ → Prop} {P : σ → ι → Prop} (hgood : ∀ s, I s → Good s)
    (hstep : ∀ s i, I s → P s i → ∃ o s', step s i = .ok (o, s') ∧ I s') :
    ∀ {s : σ} {is : List ι}, I s → Along step P s is → Safe step Good s is
  | s, [], hs, _ => hgood s hs
  | s, _ :: _, hs, hP => by
    obtain ⟨o, s', hi, hs'⟩ := hstep _ _ hs hP.1
    exact ⟨hgood s hs, o, s', hi, (hP.2 o s' hi).safe hgood hstep hs'⟩

/-- A run is safe just if each of its steps meets the condition that makes a step safe. -/
theorem safe_iff {I Good : σ → Prop} {P : σ → ι → Prop} (hgood : ∀ s, I s → Good s)
    (hstep : ∀ s i, I s → P s i → ∃ o s', step s i = .ok (o, s') ∧ I s')
    (honly : ∀ s i o s', I s → step s i = .ok (o, s') → Good s' → P s i) :
    ∀ {s : σ} (is : List ι), I s → (Safe step Good s is ↔ Along step P s is)
  | s, [], hs => iff_of_true (hgood s hs) trivial
  | s, i :: is, hs => by
    constructor
    · rintro ⟨-, o, s', hi, hsafe⟩
      have hP := honly _ _ _ _ hs hi hsafe.good
      obtain ⟨o₁, s₁, hi₁, hs₁⟩ := hstep _ _ hs hP
      refine ⟨hP, fun o₂ s₂ hi₂ => ?_⟩
      obtain ⟨-, rfl⟩ := Prod.mk.inj (Except.ok.inj (hi₁.symm.trans hi₂))
      obtain ⟨-, rfl⟩ := Prod.mk.inj (Except.ok.inj (hi₁.symm.trans hi))
      exact (safe_iff hgood hstep honly is hs₁).1 hsafe
    · exact fun hP => hP.safe hgood hstep hs

/-- Two results with one output whose states are related, or one fault. -/
inductive SameOutput (R : σ₁ → σ₂ → Prop) : Except Fault (ο × σ₁) → Except Fault (ο × σ₂) → Prop
  | ok (o : ο) {s₁ : σ₁} {s₂ : σ₂} (h : R s₁ s₂) : SameOutput R (.ok (o, s₁)) (.ok (o, s₂))
  | error (e : Fault) : SameOutput R (.error e) (.error e)

/-- Machines that go in step from related states give one output. -/
theorem run_sameOutput {R : σ₁ → σ₂ → Prop} {step₁ : σ₁ → ι → Except Fault (ο × σ₁)}
    {step₂ : σ₂ → ι → Except Fault (ο × σ₂)}
    (h : ∀ s₁ s₂ i, R s₁ s₂ → SameOutput R (step₁ s₁ i) (step₂ s₂ i)) :
    ∀ {s₁ : σ₁} {s₂ : σ₂} (is : List ι), R s₁ s₂ →
      SameOutput R (run step₁ s₁ is) (run step₂ s₂ is)
  | _, _, [], hR => .ok [] hR
  | s₁, s₂, i :: is, hR => by
    unfold run
    rcases h₁ : step₁ s₁ i with e₁ | ⟨o₁, t₁⟩ <;> rcases h₂ : step₂ s₂ i with e₂ | ⟨o₂, t₂⟩ <;>
      have hstep := h s₁ s₂ i hR <;> rw [h₁, h₂] at hstep <;> cases hstep
    · exact .error _
    · rename_i hR'
      have hrun := run_sameOutput h is hR'
      simp only [ok_bind]
      rcases h₃ : run step₁ t₁ is with e₃ | ⟨os₁, u₁⟩ <;>
        rcases h₄ : run step₂ t₂ is with e₄ | ⟨os₂, u₂⟩ <;>
        rw [h₃, h₄] at hrun <;> cases hrun
      · exact .error _
      · exact .ok _ ‹_›

/-- A run on inputs that stand for others. -/
theorem run_map {κ : Type} (f : κ → ι) : ∀ (s : σ) (is : List κ),
    run step s (is.map f) = run (fun s i => step s (f i)) s is
  | _, [] => rfl
  | s, i :: is => by simp only [List.map_cons, run, run_map f _ is]

theorem SameOutput.map_fst {R : σ₁ → σ₂ → Prop} {x : Except Fault (ο × σ₁)}
    {y : Except Fault (ο × σ₂)} (h : SameOutput R x y) : x.map Prod.fst = y.map Prod.fst := by
  cases h <;> rfl

end Machine
