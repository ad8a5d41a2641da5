import Mathlib.Logic.Relation

/-!
# Runs

A system takes events one after the other; `allowed` says which events a state may meet,
and a step that cannot be taken is `none`.
-/

namespace Streaming
set_option autoImplicit false

universe u v w
variable {α : Type u} {ε : Type v}

/-- The states that are reached from a first one by allowed events. -/
def Runs (allowed : α → ε → Prop) (step : α → ε → Option α) : α → α → Prop :=
  Relation.ReflTransGen fun a a' => ∃ e, allowed a e ∧ step a e = some a'

variable {allowed : α → ε → Prop} {step : α → ε → Option α} {first a a' : α}

/-- What the first state has and every allowed step keeps, every state reached has. -/
theorem Runs.invariant {P : α → Prop} (h : Runs allowed step first a) (hfirst : P first)
    (hkeep : ∀ a e a', P a → allowed a e → step a e = some a' → P a') : P a := by
  induction h with
  | refl => exact hfirst
  | tail _ hstep ih =>
    obtain ⟨e, he, hstep⟩ := hstep
    exact hkeep _ e _ ih he hstep

/-- A run that a test lets through is a run, when what the test lets through is allowed. -/
theorem Runs.foldlM {check : α → ε → Bool} (h : Runs allowed step first a)
    (hcheck : ∀ a e, Runs allowed step first a → check a e = true → allowed a e) {events : List ε}
    (hrun : events.foldlM (fun a e => if check a e then step a e else none) a = some a') :
    Runs allowed step first a' := by
  induction events generalizing a with
  | nil =>
    obtain rfl := Option.some.inj hrun
    exact h
  | cons e events ih =>
    rw [List.foldlM_cons] at hrun
    obtain ⟨b, hstep, hrun⟩ := Option.bind_eq_some_iff.mp hrun
    rw [Option.ite_none_right_eq_some] at hstep
    exact ih (h.tail ⟨e, hcheck a e h hstep.1, hstep.2⟩) hrun

theorem Runs.exists_of_foldlM {β : Type w} {check : α → ε → Bool}
    (hcheck : ∀ a e, Runs allowed step first a → check a e = true → allowed a e)
    {events : List ε} {view : α → β} {b : β}
    (hrun : (events.foldlM (fun a e => if check a e then step a e else none) first).map view =
      some b) : ∃ a, Runs allowed step first a ∧ view a = b := by
  obtain ⟨a, hrun, hview⟩ := Option.map_eq_some_iff.mp hrun
  exact ⟨a, Runs.foldlM .refl hcheck hrun, hview⟩

end Streaming
