import Mathlib.Data.Set.Insert
import Mathlib.Data.List.Pairwise

/-!
# Handles of an event loop

A handle is closed by one callback and written to by another one, which has kept it
with some work that is pending. As long as a handle is closed only when no work of
its own is pending, it is never written to afterwards.
-/

namespace Streaming
set_option autoImplicit false

universe u

inductive HandleCall (χ : Type u) where
  | write (c : χ)
  | close (c : χ)
  deriving DecidableEq

/-- No handle is written to after it has been closed. -/
def Orderly {χ : Type u} (calls : List (HandleCall χ)) : Prop :=
  calls.Pairwise fun a b => ∀ c, a = .close c → b ≠ .write c

/-- The handles that are open, those that pending work will be written to, and the calls so far. -/
structure Handles (χ : Type u) where
  live : Set χ
  pending : Set χ
  calls : List (HandleCall χ)

namespace Handles
variable {χ : Type u}

structure Safe (h : Handles χ) : Prop where
  orderly : Orderly h.calls
  pending_live : h.pending ⊆ h.live
  closed : ∀ c, .close c ∈ h.calls → c ∉ h.live

variable {h : Handles χ} (hh : h.Safe)
include hh

theorem Safe.accept {c : χ} (hc : .close c ∉ h.calls) :
    Safe { h with live := insert c h.live } := by
  refine ⟨hh.orderly, fun d hd => Set.mem_insert_of_mem c (hh.pending_live hd), ?_⟩
  intro d hd hlive
  rcases Set.mem_insert_iff.mp hlive with rfl | hlive
  · exact hc hd
  · exact hh.closed d hd hlive

theorem Safe.register {pending : Set χ} (hsub : pending ⊆ h.live) :
    Safe { h with pending := pending } :=
  ⟨hh.orderly, hsub, hh.closed⟩

theorem Safe.respond {pending : Set χ} (hsub : pending ⊆ h.pending) {cs : List χ}
    (hcs : ∀ c ∈ cs, c ∈ h.pending) :
    Safe { h with pending := pending, calls := h.calls ++ cs.map .write } := by
  refine ⟨?_, hsub.trans hh.pending_live, ?_⟩
  · apply List.pairwise_append.mpr
    refine ⟨hh.orderly, ?_, ?_⟩
    · apply List.pairwise_map.mpr
      apply List.pairwise_of_forall
      intro a b c h
      cases h
    · intro a ha b hb c hclose
      obtain ⟨d, hd, rfl⟩ := List.mem_map.mp hb
      intro hwrite
      obtain rfl := HandleCall.write.inj hwrite
      rw [hclose] at ha
      exact hh.closed d ha (hh.pending_live (hcs d hd))
  · intro c hc
    rcases List.mem_append.mp hc with hc | hc
    · exact hh.closed c hc
    · obtain ⟨d, _, heq⟩ := List.mem_map.mp hc
      cases heq

theorem Safe.close {c : χ} (hc : c ∉ h.pending) :
    Safe { h with live := h.live \ {c}, calls := h.calls ++ [.close c] } := by
  refine ⟨?_, ?_, ?_⟩
  · apply List.pairwise_append.mpr
    refine ⟨hh.orderly, List.pairwise_singleton _ _, ?_⟩
    intro a _ b hb d _ hwrite
    rw [List.mem_singleton.mp hb] at hwrite
    cases hwrite
  · intro d hd
    refine ⟨hh.pending_live hd, ?_⟩
    rintro rfl
    exact hc hd
  · intro d hd hlive
    rcases List.mem_append.mp hd with hd | hd
    · exact hh.closed d hd hlive.1
    · obtain rfl := HandleCall.close.inj (List.mem_singleton.mp hd)
      exact hlive.2 rfl

end Handles
end Streaming
