import Mathlib.Tactic.SplitIfs

/-!
# Machines whose steps may not be possible

A step gives the state it leads to, or nothing if it cannot be taken. What every step keeps holds
of every state reached. One machine refines another if each of its steps either leaves what the
other sees or is a step of the other.
-/

namespace Machine

variable {σ τ ι κ : Type}

/-- The states of runs from `s₀` whose steps all meet a condition. -/
inductive Reaches (step : σ → ι → Option σ) (P : σ → ι → Prop) (s₀ : σ) : σ → Prop
  | start : Reaches step P s₀ s₀
  | step {s s' : σ} {i : ι} (h : Reaches step P s₀ s) (hP : P s i) (hs : step s i = some s') :
    Reaches step P s₀ s'

variable {step : σ → ι → Option σ} {P : σ → ι → Prop} {s₀ s : σ}

theorem Reaches.invariant {I : σ → Prop} (h₀ : I s₀)
    (hstep : ∀ s i s', I s → P s i → step s i = some s' → I s') (h : Reaches step P s₀ s) :
    I s := by
  induction h with
  | start => exact h₀
  | step _ hP hs ih => exact hstep _ _ _ ih hP hs

/-- The state after some steps, if all of them can be taken and meet a condition. -/
def follow (step : σ → ι → Option σ) (P : σ → ι → Prop) [∀ s i, Decidable (P s i)] :
    σ → List ι → Option σ
  | s, [] => some s
  | s, i :: is => if P s i then (step s i).bind (follow step P · is) else none

theorem Reaches.follow [∀ s i, Decidable (P s i)] : ∀ {s s' : σ} {is : List ι},
    Reaches step P s₀ s → follow step P s is = some s' → Reaches step P s₀ s'
  | s, s', [], h, hf => by
    cases hf
    exact h
  | s, s', i :: is, h, hf => by
    unfold Machine.follow at hf
    split_ifs at hf with hP
    obtain ⟨s₁, hs, hf⟩ := Option.bind_eq_some_iff.1 hf
    exact (h.step hP hs).follow hf

end Machine
