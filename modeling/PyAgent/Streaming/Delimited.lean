import Mathlib.Data.List.Basic
import Mathlib.Data.List.Infix

/-!
# Delimited fields

A field ends at the first occurrence of its delimiter. Where the first symbol of a
delimiter does not come back inside it, no occurrence can overlap the field's end,
so fields without the delimiter are found again in any text they stand in.
-/

namespace Streaming
set_option autoImplicit false

universe u
variable {α : Type u} {q : α} {ds a b x y : List α}

theorem delimiter_end (hq : q ∉ ds) (hb : ¬ (q :: ds) <:+: a ++ b)
    (h : (q :: ds) ++ x = b ++ (q :: ds) ++ y) : b = [] := by
  by_contra hne
  obtain ⟨c, cs, rfl⟩ := List.exists_cons_of_ne_nil hne
  simp only [List.cons_append, List.append_assoc, List.cons.injEq] at h
  obtain ⟨rfl, h⟩ := h
  rcases List.append_eq_append_iff.mp h with ⟨es, rfl, _⟩ | ⟨es, hds, hes⟩
  · apply hb
    exact ⟨a, es, by simp⟩
  · -- the delimiter of the longer field would begin inside the other one
    cases es with
    | nil =>
      apply hb
      rw [List.append_nil] at hds
      exact ⟨a, [], by simp [hds]⟩
    | cons e es =>
      obtain ⟨rfl, _⟩ := List.cons.inj hes
      apply hq
      rw [hds]
      simp

theorem append_delimiter_inj (hq : q ∉ ds) (ha : ¬ (q :: ds) <:+: a) (hb : ¬ (q :: ds) <:+: b)
    (h : a ++ (q :: ds) ++ x = b ++ (q :: ds) ++ y) : a = b ∧ x = y := by
  rw [List.append_assoc, List.append_assoc] at h
  rcases List.append_eq_append_iff.mp h with ⟨cs, rfl, hcs⟩ | ⟨cs, rfl, hcs⟩
  · rw [← List.append_assoc] at hcs
    obtain rfl := delimiter_end hq hb hcs
    exact ⟨(List.append_nil a).symm, List.append_cancel_left hcs⟩
  · rw [← List.append_assoc] at hcs
    obtain rfl := delimiter_end hq ha hcs
    exact ⟨List.append_nil b, (List.append_cancel_left hcs).symm⟩

/-- The delimiter is one symbol. -/
theorem append_symbol_inj (ha : q ∉ a) (hb : q ∉ b) (h : a ++ q :: x = b ++ q :: y) :
    a = b ∧ x = y := by
  have hsingle : ∀ c : List α, q ∉ c → ¬ [q] <:+: c := fun c hc h => hc (h.subset (by simp))
  have h' : a ++ [q] ++ x = b ++ [q] ++ y := by simpa using h
  exact append_delimiter_inj List.not_mem_nil (hsingle a ha) (hsingle b hb) h'

end Streaming
