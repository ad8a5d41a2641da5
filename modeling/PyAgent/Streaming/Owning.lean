import Mathlib.Data.Multiset.AddSub

/-!
# Programs that own blocks

Who has to release a block is a matter of which program holds it. `Owning owns c s t`
says that `c` takes over the blocks of `s` and hands on those of `t`; all others it
leaves alone, so what is known of them is kept by itself.
-/

namespace Streaming
set_option autoImplicit false

universe u
variable {μ α β : Type u} {ι : Type*}

/-- `owns m s` says that the blocks that are out in `m` are those of `s`. -/
def Owning (owns : μ → Multiset ι → Prop) (c : StateT μ Option α) (s : Multiset ι)
    (t : α → Multiset ι) : Prop :=
  ∀ r m a m', owns m (s + r) → c m = some (a, m') → owns m' (t a + r)

variable {owns : μ → Multiset ι → Prop} {c : StateT μ Option α} {f : α → StateT μ Option β}
variable {s s' : Multiset ι} {t : α → Multiset ι} {u : β → Multiset ι}

theorem Owning.pure {a : α} (h : s = t a) : Owning owns (pure a) s t := by
  intro r m a' m' hm hrun
  obtain ⟨rfl, rfl⟩ := Prod.mk.inj (Option.some.inj hrun)
  rwa [← h]

theorem Owning.of_eq (hc : Owning owns c s t) (hs : s' = s) : Owning owns c s' t := hs ▸ hc

/-- A call inside a program: the blocks `q` are not its business. -/
theorem Owning.bind (hc : Owning owns c s t) {q : Multiset ι} (hs : s' = s + q)
    (hf : ∀ a, Owning owns (f a) (t a + q) u) : Owning owns (c >>= f) s' u := by
  intro r m b m' hm hrun
  obtain ⟨⟨a, m₁⟩, hfirst, hrest⟩ := Option.bind_eq_some_iff.mp hrun
  rw [hs, Multiset.add_assoc] at hm
  have hmid := hc (q + r) m a m₁ hm hfirst
  rw [← Multiset.add_assoc] at hmid
  exact hf a r m₁ b m' hmid hrest

/-- A call that takes nothing over. -/
theorem Owning.gain (hc : Owning owns c 0 t) (hf : ∀ a, Owning owns (f a) (t a + s) u) :
    Owning owns (c >>= f) s u :=
  hc.bind (Multiset.zero_add s).symm hf

/-- A call that hands nothing on. -/
theorem Owning.lose {c : StateT μ Option PUnit} {f : PUnit → StateT μ Option β} {q : Multiset ι}
    (hc : Owning owns c s fun _ => 0) (hs : s' = s + q) (hf : Owning owns (f ⟨⟩) q u) :
    Owning owns (c >>= f) s' u := by
  apply hc.bind hs
  intro a
  rwa [Multiset.zero_add]

/-- Whatever a program returns satisfies `P`. -/
def Returns (c : StateT μ Option α) (P : α → Prop) : Prop :=
  ∀ m a m', c m = some (a, m') → P a

theorem Returns.pure {a : α} {P : α → Prop} (h : P a) : Returns (μ := μ) (pure a) P := by
  intro m a' m' hrun
  obtain ⟨rfl, rfl⟩ := Prod.mk.inj (Option.some.inj hrun)
  exact h

theorem Returns.bind {Q : α → Prop} {P : β → Prop} (hc : Returns c Q)
    (hf : ∀ a, Q a → Returns (f a) P) : Returns (c >>= f) P := by
  intro m b m' hrun
  obtain ⟨⟨a, m₁⟩, hfirst, hrest⟩ := Option.bind_eq_some_iff.mp hrun
  exact hf a (hc m a m₁ hfirst) m₁ b m' hrest

theorem Returns.skip {P : β → Prop} (hf : ∀ a, Returns (f a) P) : Returns (c >>= f) P :=
  Returns.bind (fun _ _ _ _ => trivial) fun a _ => hf a

/-- A program that does not come back owns and returns what one likes. -/
theorem Owning.fail : Owning owns (fun _ => none) s t := nofun

theorem Returns.fail {P : α → Prop} : Returns (μ := μ) (fun _ => none) P := nofun

end Streaming
