import Libcacard.Proofs.Build

/-!
# What a command leaves alone

An applet changes only when a command goes to it or selects it, and the token is asked only for
what the command's own applet or the ISO layer needs.
-/

namespace Libcacard

open Machine

variable {τ : Type} {emul : Emul τ} {card : VCard τ} {apdu : VCardAPDU} {r : Processed τ}

/-- An applet that is not selected stays as it is, unless the command goes to it. -/
theorem CardStep.applet_at (h : CardStep emul card apdu r) {i : ℕ} {a : VCardApplet}
    (ha : card.applets[i]? = some a) (hnot : ¬ apdu.Selects a.aid) :
    r.card.applets[i]? = some a
      ∨ ∃ p p' s', card.currentApplet apdu.channel = some i ∧ a.appletPrivate = some p
        ∧ Handling emul apdu p card.toSession a.processApdu p' s'
        ∧ r.card.applets[i]? = some { a with appletPrivate := some p' } := by
  have hlt := (List.getElem?_eq_some_iff.1 ha).1
  cases h with
  | answer | serial | windows | deselect | loginStatus | login | nextBytes => exact .inl ha
  | @handle j b p p' _ _ _ hj hb hp h hr =>
    by_cases hij : j = i
    · subst hij
      obtain rfl : a = b := Option.some.inj (ha.symm.trans hb)
      exact .inr ⟨p, p', _, hj, hp, h, List.getElem?_set_self hlt⟩
    · exact .inl ((List.getElem?_set_ne hij).trans ha)
  | @select aid j b _ _ hselects hj hb hr =>
    by_cases hij : j = i
    · subst hij
      obtain ⟨c, hc, rfl⟩ := vcardFindApplet_eq_some hj
      obtain rfl : a = c := Option.some.inj (ha.symm.trans hc)
      exact absurd hselects hnot
    · exact .inl ((List.getElem?_set_ne hij).trans ha)

/-- An answer calls nothing but the functions that build a response. -/
theorem Answered.mem_calls {s : Session τ} {aLe : ℕ} {a : VCardResponse × Session τ}
    (h : Answered s aLe a) {c : Call} (hc : c ∈ a.2.calls) :
    c ∈ s.calls ∨ ∃ p Le, c = .response p Le := by
  cases h with
  | status | statusBytes => exact .inl hc
  | payload payload status =>
    have hc : c ∈ s.calls ++ [.response payload aLe] := by
      unfold respond at hc
      split_ifs at hc <;> exact hc
    rcases List.mem_append.1 hc with hc | hc
    · exact .inl hc
    · exact .inr ⟨_, _, List.mem_singleton.1 hc⟩

/-- What a command calls besides: the token, for the applet it went to, or for a PIN. -/
theorem CardStep.mem_calls (h : CardStep emul card apdu r) (hcalls : card.calls = []) {c : Call}
    (hc : c ∈ r.card.calls) :
    (∃ p Le, c = .response p Le) ∨ (∃ pin status, c = .login pin status)
      ∨ ∃ i a p p' s', card.currentApplet apdu.channel = some i ∧ card.applets[i]? = some a
        ∧ a.appletPrivate = some p ∧ Handling emul apdu p card.toSession a.processApdu p' s'
        ∧ c ∈ s'.calls := by
  have hans : ∀ {s : Session τ} {a : VCardResponse × Session τ}, s.calls = [] →
      Answered s apdu.aLe a → c ∈ a.2.calls → ∃ p Le, c = .response p Le := by
    intro s a hs hr hc
    rcases hr.mem_calls hc with hc | hc
    · rw [hs] at hc
      cases hc
    · exact hc
  cases h with
  | answer hr | serial hr | windows hr | select _ _ _ hr | loginStatus _ hr | nextBytes _ hr =>
    exact .inl (hans (by exact hcalls) hr hc)
  | deselect =>
    have hc : c ∈ card.calls := hc
    rw [hcalls] at hc
    cases hc
  | login =>
    have hc : c ∈ card.calls ++ [_] := hc
    rw [hcalls, List.nil_append, List.mem_singleton] at hc
    exact .inr (.inl ⟨_, _, hc⟩)
  | handle hi ha hp h hr =>
    rcases hr.mem_calls hc with hc | hc
    · exact .inr (.inr ⟨_, _, _, _, _, hi, ha, hp, h, hc⟩)
    · exact .inl hc

end Libcacard
