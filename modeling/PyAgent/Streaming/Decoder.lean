import Mathlib.Data.List.Basic
import Mathlib.Data.List.Infix

/-!
# Resumable decoders

A decoder has a state, knows how many symbols it needs next, and turns exactly
that many into a new state and some outputs. Between two deliveries it keeps its
state and the symbols it could not use yet, so what it does with a stream does
not depend on how the stream is cut (`Settles.resume`, `Settles.unique`).
-/

namespace Streaming
set_option autoImplicit false

universe u v w
variable {σ : Type u} {β : Type v} {ω : Type w}

/-- What becomes of the symbols a decoder asked for. -/
inductive Verdict (σ : Type u) (ω : Type w) where
  | took (s : σ) (os : List ω)
  | refused
  | died

structure Decoder (σ : Type u) (β : Type v) (ω : Type w) where
  need : σ → Nat
  take : σ → List β → Verdict σ ω

namespace Decoder
variable (D : Decoder σ β ω)

inductive Steps : σ → List β → List ω → σ → List β → Prop where
  | refl (s : σ) (us : List β) : Steps s us [] s us
  | head {s s' s'' : σ} {us us'' : List β} {os os' : List ω} :
      D.need s ≤ us.length → D.take s (us.take (D.need s)) = .took s' os →
      Steps s' (us.drop (D.need s)) os' s'' us'' → Steps s us (os ++ os') s'' us''

def Waits (s : σ) (us : List β) : Prop := us.length < D.need s

def Refuses (s : σ) (us : List β) : Prop :=
  D.need s ≤ us.length ∧ D.take s (us.take (D.need s)) = .refused

/-- Steps for as long as there are enough symbols. -/
def Settles (s : σ) (us : List β) (os : List ω) (s' : σ) (us' : List β) : Prop :=
  D.Steps s us os s' us' ∧ D.Waits s' us'

variable {D} {s s' s'' s₁ s₂ : σ} {us us' us'' us₁ us₂ vs : List β} {os os' os₁ os₂ : List ω}

theorem Steps.single (hn : D.need s ≤ us.length)
    (ht : D.take s (us.take (D.need s)) = .took s' os) :
    D.Steps s us os s' (us.drop (D.need s)) := by
  simpa using Steps.head hn ht (.refl s' (us.drop (D.need s)))

theorem Steps.trans (h : D.Steps s us os s' us') (h' : D.Steps s' us' os' s'' us'') :
    D.Steps s us (os ++ os') s'' us'' := by
  induction h with
  | refl => exact h'
  | head hn ht _ ih =>
    rw [List.append_assoc]
    exact .head hn ht (ih h')

theorem Steps.append (h : D.Steps s us os s' us') (vs : List β) :
    D.Steps s (us ++ vs) os s' (us' ++ vs) := by
  induction h with
  | refl => exact .refl _ _
  | @head s s' s'' us us'' os os' hn ht _ ih =>
    have hn' : D.need s ≤ (us ++ vs).length := by
      rw [List.length_append]
      omega
    have ht' : D.take s ((us ++ vs).take (D.need s)) = .took s' os := by
      rwa [List.take_append_of_le_length hn]
    refine .head hn' ht' ?_
    rw [List.drop_append_of_le_length hn]
    exact ih

theorem Waits.no_step (hw : D.Waits s us) : ¬ D.need s ≤ us.length := by
  unfold Waits at hw
  omega

/-- Two runs from the same symbols never part: one of them goes on from where the other is. -/
theorem Steps.linear (h₁ : D.Steps s us os₁ s₁ us₁) (h₂ : D.Steps s us os₂ s₂ us₂) :
    (∃ os, os₂ = os₁ ++ os ∧ D.Steps s₁ us₁ os s₂ us₂) ∨
      (∃ os, os₁ = os₂ ++ os ∧ D.Steps s₂ us₂ os s₁ us₁) := by
  induction h₁ generalizing os₂ with
  | refl => exact .inl ⟨os₂, rfl, h₂⟩
  | head hn ht hs ih =>
    cases h₂ with
    | refl => exact .inr ⟨_, rfl, .head hn ht hs⟩
    | head hn' ht' hs' =>
      rw [ht] at ht'
      obtain ⟨rfl, rfl⟩ := Verdict.took.inj ht'
      rcases ih hs' with ⟨os, rfl, h⟩ | ⟨os, rfl, h⟩
      · exact .inl ⟨os, (List.append_assoc _ _ _).symm, h⟩
      · exact .inr ⟨os, (List.append_assoc _ _ _).symm, h⟩

theorem Waits.stuck (hw : D.Waits s us) (h : D.Steps s us os s' us') :
    os = [] ∧ s' = s ∧ us' = us := by
  cases h with
  | refl => exact ⟨rfl, rfl, rfl⟩
  | head hn => exact absurd hn hw.no_step

theorem Refuses.stuck (hr : D.Refuses s us) (h : D.Steps s us os s' us') :
    os = [] ∧ s' = s ∧ us' = us := by
  cases h with
  | refl => exact ⟨rfl, rfl, rfl⟩
  | head _ ht =>
    rw [hr.2] at ht
    cases ht

theorem Settles.after (h : D.Settles s us os s' us') (h₁ : D.Steps s us os₁ s₁ us₁) :
    ∃ os₂, os = os₁ ++ os₂ ∧ D.Settles s₁ us₁ os₂ s' us' := by
  rcases h₁.linear h.1 with ⟨os₂, rfl, h₂⟩ | ⟨os₂, rfl, h₂⟩
  · exact ⟨os₂, rfl, h₂, h.2⟩
  · obtain ⟨rfl, rfl, rfl⟩ := h.2.stuck h₂
    exact ⟨[], by simp, .refl _ _, h.2⟩

theorem Settles.unique (h : D.Settles s us os s' us') (h₁ : D.Settles s us os₁ s₁ us₁) :
    os = os₁ ∧ s' = s₁ ∧ us' = us₁ := by
  obtain ⟨os₂, rfl, h₂⟩ := h.after h₁.1
  obtain ⟨rfl, rfl, rfl⟩ := h₁.2.stuck h₂.1
  simp

theorem Steps.settles (h : D.Steps s us os s' us') (h' : D.Settles s' us' os' s'' us'') :
    D.Settles s us (os ++ os') s'' us'' :=
  ⟨h.trans h'.1, h'.2⟩

/-- Settling, then settling again once more symbols have come, is settling once on all of them. -/
theorem Settles.resume (h : D.Settles s us os s' us')
    (h' : D.Settles s' (us' ++ vs) os' s'' us'') :
    D.Settles s (us ++ vs) (os ++ os') s'' us'' :=
  (h.1.append vs).settles h'

theorem Refuses.not_waits (hr : D.Refuses s us) : ¬ D.Waits s us :=
  fun hw => hw.no_step hr.1

theorem Steps.suffix (h : D.Steps s us os s' us') : us' <:+ us := by
  induction h with
  | refl => exact List.suffix_refl _
  | head _ _ _ ih => exact ih.trans (List.drop_suffix _ _)

theorem Steps.length_le (h : D.Steps s us os s' us') : us'.length ≤ us.length :=
  h.suffix.length_le

/-- A decoder has looked at no more than the symbols it took. -/
theorem Steps.consumed (h : D.Steps s us os s' us') :
    ∃ ps, us = ps ++ us' ∧ ∀ ts, D.Steps s (ps ++ ts) os s' ts := by
  induction h with
  | refl s us => exact ⟨[], rfl, fun ts => .refl s ts⟩
  | @head s s' s'' us us'' os os' hn ht _ ih =>
    obtain ⟨ps, hps, hsteps⟩ := ih
    have hlen : (us.take (D.need s)).length = D.need s := List.length_take_of_le hn
    refine ⟨us.take (D.need s) ++ ps, ?_, ?_⟩
    · rw [List.append_assoc, ← hps, List.take_append_drop]
    · intro ts
      rw [List.append_assoc]
      have hn' : D.need s ≤ (us.take (D.need s) ++ (ps ++ ts)).length := by
        rw [List.length_append, hlen]
        exact Nat.le_add_right _ _
      have htake : (us.take (D.need s) ++ (ps ++ ts)).take (D.need s) = us.take (D.need s) :=
        List.take_left' hlen
      have hdrop : (us.take (D.need s) ++ (ps ++ ts)).drop (D.need s) = ps ++ ts :=
        List.drop_left' hlen
      apply Steps.head hn' (by rw [htake]; exact ht)
      rw [hdrop]
      exact hsteps ts

/-- For as long as symbols are left, no more than `cap` of them are needed next. -/
def Within (D : Decoder σ β ω) (cap : Nat) (s : σ) (us : List β) : Prop :=
  ∀ os s' us', D.Steps s us os s' us' → us' ≠ [] → D.need s' ≤ cap

section Within
variable {cap : Nat} {fs : List β}

theorem within_nil : D.Within cap s [] := by
  intro os s' us' h hne
  exact absurd (List.suffix_nil.mp h.suffix) hne

/-- The longest field of these symbols has `m` of them. -/
def Width (D : Decoder σ β ω) (s : σ) (fs : List β) (m : Nat) (s' : σ) : Prop :=
  ∀ cap us, D.Within cap s (fs ++ us) ↔ m ≤ cap ∧ D.Within cap s' us

theorem Width.field (hn : D.need s = fs.length) (ht : D.take s fs = .took s' os) :
    D.Width s fs fs.length s' := by
  intro cap us
  have htake : (fs ++ us).take (D.need s) = fs := by
    rw [hn, List.take_left]
  have hdrop : (fs ++ us).drop (D.need s) = us := by
    rw [hn, List.drop_left]
  have henough : D.need s ≤ (fs ++ us).length := by
    rw [hn, List.length_append]
    exact Nat.le_add_right _ _
  have htook : D.take s ((fs ++ us).take (D.need s)) = .took s' os := by
    rw [htake]
    exact ht
  constructor
  · intro h
    refine ⟨?_, ?_⟩
    · rcases fs.eq_nil_or_concat with rfl | ⟨gs, g, rfl⟩
      · exact Nat.zero_le _
      · have hcap := h [] s _ (.refl _ _) (by simp)
        rwa [hn] at hcap
    · intro os' s'' us'' hsteps hne
      rw [← hdrop] at hsteps
      exact h _ s'' us'' (.head henough htook hsteps) hne
  · intro h os' s'' us'' hsteps hne
    cases hsteps with
    | refl =>
      rw [hn]
      exact h.1
    | head _ ht' hrest =>
      rw [htook] at ht'
      obtain ⟨rfl, rfl⟩ := Verdict.took.inj ht'
      rw [hdrop] at hrest
      exact h.2 _ _ _ hrest hne

theorem Width.append {gs : List β} {m n : Nat} (h : D.Width s fs m s') (h' : D.Width s' gs n s'') :
    D.Width s (fs ++ gs) (max m n) s'' := by
  intro cap us
  rw [List.append_assoc, h cap (gs ++ us), h' cap us, Nat.max_le, and_assoc]

theorem within_frames {α : Type*} {enc : α → List β} {width : α → Nat} {between : σ → Prop}
    {good : α → Prop} (hframe : ∀ s a, between s → good a →
      ∃ s', between s' ∧ D.Width s (enc a) (width a) s')
    (hs : between s) {as : List α} (has : ∀ a ∈ as, good a) :
    D.Within cap s (as.map enc).flatten ↔ ∀ a ∈ as, width a ≤ cap := by
  induction as generalizing s with
  | nil => exact iff_of_true within_nil (by simp)
  | cons a as ih =>
    obtain ⟨s', hs', hwidth⟩ := hframe s a hs (has a List.mem_cons_self)
    have hrest := ih hs' (fun b hb => has b (List.mem_cons_of_mem a hb))
    rw [List.map_cons, List.flatten_cons, hwidth cap, hrest, List.forall_mem_cons]

/-- A stream that is taken as a whole, with a field of more than `cap` symbols in it: at some point
`cap` symbols are there and do not suffice. -/
theorem exists_full (h : ¬ D.Within cap s us) (hwhole : D.Steps s us os₁ s₁ []) :
    ∃ ps os s' us', ps <+: us ∧ us'.length = cap ∧ D.Settles s ps os s' us' := by
  unfold Within at h
  push Not at h
  obtain ⟨os, s', us', hsteps, hne, hcap⟩ := h
  have henough : cap ≤ us'.length := by
    rcases hsteps.linear hwhole with ⟨os₂, _, hrest⟩ | ⟨os₂, _, hrest⟩
    · cases hrest with
      | refl => exact absurd rfl hne
      | head hn => omega
    · exact absurd (List.suffix_nil.mp hrest.suffix) hne
  obtain ⟨ps, rfl, hps⟩ := hsteps.consumed
  have hlen : (us'.take cap).length = cap := List.length_take_of_le henough
  refine ⟨ps ++ us'.take cap, os, s', us'.take cap, ?_, hlen, hps _, ?_⟩
  · exact (List.prefix_append_right_inj ps).mpr (List.take_prefix cap us')
  · unfold Waits
    omega

end Within

section Pieces
variable (D)

/-- A run of symbols that is decoded as a whole and puts nothing out before its last symbol. -/
structure Piece (s : σ) (fs : List β) (os : List ω) (s' : σ) : Prop where
  whole : D.Steps s fs os s' []
  silent : ∀ ps ts, fs = ps ++ ts → ts ≠ [] → ∃ s₁ us₁, D.Settles s ps [] s₁ us₁

variable {D} {fs gs : List β}

theorem Piece.field (hn : D.need s = fs.length) (ht : D.take s fs = .took s' os) :
    D.Piece s fs os s' := by
  constructor
  · have h : D.Steps s fs os s' (fs.drop (D.need s)) :=
      .single (by omega) (by rw [List.take_of_length_le (by omega)]; exact ht)
    rwa [List.drop_of_length_le (by omega)] at h
  · intro ps ts hps hts
    subst hps
    have hpos := List.length_pos_of_ne_nil hts
    rw [List.length_append] at hn
    exact ⟨s, ps, .refl _ _, by unfold Waits; omega⟩

theorem Piece.append (h : D.Piece s fs [] s') (h' : D.Piece s' gs os s'') :
    D.Piece s (fs ++ gs) os s'' := by
  constructor
  · exact (h.whole.append gs).trans h'.whole
  · intro ps ts he hts
    rcases List.append_eq_append_iff.mp he with ⟨as, rfl, rfl⟩ | ⟨bs, rfl, rfl⟩
    · obtain ⟨s₁, us₁, h₁⟩ := h'.silent as ts rfl hts
      exact ⟨s₁, us₁, (h.whole.append as).settles h₁⟩
    · by_cases hb : bs = []
      · subst hb
        obtain ⟨s₁, us₁, h₁⟩ := h'.silent [] _ rfl hts
        exact ⟨s₁, us₁, by simpa using (h.whole.append []).settles h₁⟩
      · exact h.silent ps bs rfl hb

/-- A piece and its longest field. -/
structure Run (D : Decoder σ β ω) (s : σ) (fs : List β) (os : List ω) (m : Nat) (s' : σ) : Prop
    extends D.Piece s fs os s' where
  width : D.Width s fs m s'

theorem Run.field (hn : D.need s = fs.length) (ht : D.take s fs = .took s' os) :
    D.Run s fs os fs.length s' :=
  ⟨Piece.field hn ht, Width.field hn ht⟩

theorem Run.nil (s : σ) : D.Run s [] [] 0 s := by
  refine ⟨⟨.refl s [], ?_⟩, ?_⟩
  · intro ps ts he hts
    exact absurd (List.append_eq_nil_iff.mp he.symm).2 hts
  · intro cap us
    rw [List.nil_append]
    exact (and_iff_right (Nat.zero_le cap)).symm

theorem Run.append {m n : Nat} (h : D.Run s fs [] m s') (h' : D.Run s' gs os n s'') :
    D.Run s (fs ++ gs) os (max m n) s'' :=
  ⟨h.toPiece.append h'.toPiece, h.width.append h'.width⟩

end Pieces

section Frames
variable {α : Type*} (enc : α → List β)

/-- The frames that lie completely inside the first `n` symbols of the encoded list. -/
def complete : List α → Nat → List α
  | [], _ => []
  | a :: as, n =>
    if (enc a).length ≤ n then a :: complete as (n - (enc a).length) else []

@[simp] theorem complete_nil (n : Nat) : complete enc [] n = [] := rfl

theorem complete_isPrefix (as : List α) (n : Nat) : complete enc as n <+: as := by
  induction as generalizing n with
  | nil => exact List.prefix_refl _
  | cons a as ih =>
    unfold complete
    split
    · exact (List.prefix_cons_inj a).mpr (ih _)
    · exact List.nil_prefix

theorem complete_zero (hpos : ∀ a, 0 < (enc a).length) (as : List α) : complete enc as 0 = [] := by
  cases as with
  | nil => rfl
  | cons a as =>
    have := hpos a
    rw [complete, if_neg (by omega)]

theorem complete_length_le (as : List α) (n : Nat) :
    (((complete enc as n).map enc).flatten).length ≤ n := by
  induction as generalizing n with
  | nil => simp
  | cons a as ih =>
    unfold complete
    split
    · have := ih (n - (enc a).length)
      simp only [List.map_cons, List.flatten_cons, List.length_append]
      omega
    · simp

theorem complete_maximal {as bs : List α} {n : Nat} (hb : bs <+: as)
    (hn : ((bs.map enc).flatten).length ≤ n) : bs <+: complete enc as n := by
  induction as generalizing bs n with
  | nil => simpa using hb
  | cons a as ih =>
    cases bs with
    | nil => exact List.nil_prefix
    | cons b bs =>
      obtain ⟨rfl, hb'⟩ := List.cons_prefix_cons.mp hb
      simp only [List.map_cons, List.flatten_cons, List.length_append] at hn
      rw [complete, if_pos (by omega)]
      exact (List.prefix_cons_inj b).mpr (ih hb' (by omega))

theorem complete_all {as : List α} {n : Nat} (hn : ((as.map enc).flatten).length ≤ n) :
    complete enc as n = as :=
  (complete_isPrefix enc as n).eq_of_length_le
    (complete_maximal enc (List.prefix_refl as) hn).length_le

theorem complete_append {as bs : List α} {n : Nat} (hn : n ≤ ((as.map enc).flatten).length)
    (hpos : ∀ a, 0 < (enc a).length) : complete enc (as ++ bs) n = complete enc as n := by
  induction as generalizing n with
  | nil =>
    have : n = 0 := by simpa using hn
    subst this
    exact complete_zero enc hpos _
  | cons a as ih =>
    simp only [List.map_cons, List.flatten_cons, List.length_append] at hn
    rw [List.cons_append, complete, complete]
    split
    · rw [ih (by omega)]
    · rfl

theorem complete_mono (as : List α) {n m : Nat} (h : n ≤ m) :
    complete enc as n <+: complete enc as m :=
  complete_maximal enc (complete_isPrefix enc as n)
    (Nat.le_trans (complete_length_le enc as n) h)

/-- One more symbol completes one frame at most. -/
theorem complete_succ (hpos : ∀ a, 0 < (enc a).length) (as : List α) (n : Nat) :
    ∃ bs, complete enc as (n + 1) = complete enc as n ++ bs ∧ bs.length ≤ 1 := by
  obtain ⟨bs, hbs⟩ := complete_mono enc as (Nat.le_succ n)
  refine ⟨bs, hbs.symm, ?_⟩
  rcases bs with _ | ⟨a, _ | ⟨b, bs⟩⟩
  · exact Nat.zero_le 1
  · exact Nat.le_refl 1
  · have hlen := complete_length_le enc as (n + 1)
    have hb := hpos b
    have hshort : (((complete enc as n ++ [a]).map enc).flatten).length ≤ n := by
      rw [← hbs] at hlen
      simp only [List.map_append, List.map_cons, List.map_nil, List.flatten_append,
        List.flatten_cons, List.flatten_nil, List.length_append, List.length_nil] at hlen ⊢
      omega
    have hstarts : complete enc as n ++ [a] <+: as := by
      have h := complete_isPrefix enc as (n + 1)
      rw [← hbs] at h
      exact List.IsPrefix.trans ⟨b :: bs, by simp⟩ h
    have hmax := (complete_maximal enc hstarts hshort).length_le
    rw [List.length_append, List.length_singleton] at hmax
    omega

end Frames

/-- Frames a decoder reads as wholes: between two of them it is always in one of the states
`between`, and each good frame puts out one thing. -/
structure Framing (D : Decoder σ β ω) (α : Type*) where
  enc : α → List β
  out : α → ω
  good : α → Prop
  between : σ → Prop
  enc_pos : ∀ a, 0 < (enc a).length
  need_pos : ∀ s, between s → 0 < D.need s
  piece : ∀ s a, between s → good a → ∃ s', between s' ∧ D.Piece s (enc a) [out a] s'

namespace Framing
variable {α : Type*} (F : D.Framing α)

def comap {γ : Type*} (f : γ → α) : D.Framing γ where
  enc c := F.enc (f c)
  out c := F.out (f c)
  good c := F.good (f c)
  between := F.between
  enc_pos c := F.enc_pos (f c)
  need_pos := F.need_pos
  piece s c hs hc := F.piece s (f c) hs hc

theorem whole {as : List α} (hgood : ∀ a ∈ as, F.good a) {s : σ} (hs : F.between s) :
    ∃ s', F.between s' ∧ D.Steps s (as.map F.enc).flatten (as.map F.out) s' [] := by
  induction as generalizing s with
  | nil => exact ⟨s, hs, .refl s []⟩
  | cons a as ih =>
    obtain ⟨s₁, hs₁, hpiece⟩ := F.piece s a hs (hgood a List.mem_cons_self)
    obtain ⟨s', hs', hrest⟩ := ih (fun b hb => hgood b (List.mem_cons_of_mem a hb)) hs₁
    exact ⟨s', hs', (hpiece.whole.append (as.map F.enc).flatten).trans hrest⟩

/-- Of any prefix of a stream of frames, exactly the complete frames are put out. -/
theorem settle {as : List α} (hgood : ∀ a ∈ as, F.good a) {s : σ} (hs : F.between s)
    {ps : List β} (hp : ps <+: (as.map F.enc).flatten) :
    ∃ s' us', D.Settles s ps ((complete F.enc as ps.length).map F.out) s' us' := by
  induction as generalizing s ps with
  | nil =>
    obtain rfl : ps = [] := by simpa using hp
    exact ⟨s, [], .refl _ _, F.need_pos s hs⟩
  | cons a as ih =>
    obtain ⟨s', hs', hpiece⟩ := F.piece s a hs (hgood a List.mem_cons_self)
    have hrest : ∀ b ∈ as, F.good b := fun b hb => hgood b (List.mem_cons_of_mem a hb)
    obtain ⟨ts, hts⟩ := hp
    simp only [List.map_cons, List.flatten_cons] at hts
    rcases List.append_eq_append_iff.mp hts with ⟨cs, hcs, rfl⟩ | ⟨qs, rfl, hqs⟩
    · by_cases hc : cs = []
      · -- the prefix ends exactly where the first frame does
        subst hc
        obtain rfl : ps = F.enc a := by simpa using hcs.symm
        obtain ⟨s₁, us₁, h₁⟩ := ih hrest hs' List.nil_prefix
        refine ⟨s₁, us₁, ?_⟩
        have h := hpiece.whole.settles h₁
        simpa [complete] using h
      · obtain ⟨s₁, us₁, h₁⟩ := hpiece.silent ps cs hcs hc
        have hlen : ¬ (F.enc a).length ≤ ps.length := by
          have := List.length_pos_of_ne_nil hc
          rw [hcs, List.length_append]
          omega
        exact ⟨s₁, us₁, by simpa [complete, hlen] using h₁⟩
    · obtain ⟨s₁, us₁, h₁⟩ := ih hrest hs' ⟨ts, hqs.symm⟩
      refine ⟨s₁, us₁, ?_⟩
      have h := (hpiece.whole.append qs).settles h₁
      simpa [complete, List.length_append] using h

theorem settle_behind {as : List α} (hgood : ∀ a ∈ as, F.good a) {s s₁ : σ} {hd : List β}
    (hpiece : D.Piece s hd [] s₁) (hs₁ : F.between s₁) {ps : List β}
    (hp : ps <+: hd ++ (as.map F.enc).flatten) :
    ∃ s' us', D.Settles s ps ((complete F.enc as (ps.length - hd.length)).map F.out) s' us' := by
  have hbehind : ∀ qs, qs <+: (as.map F.enc).flatten → ∃ s' us',
      D.Settles s (hd ++ qs) ((complete F.enc as qs.length).map F.out) s' us' := by
    intro qs hqs
    obtain ⟨s', us', h⟩ := F.settle hgood hs₁ hqs
    exact ⟨s', us', by simpa using (hpiece.whole.append qs).settles h⟩
  obtain ⟨ts, hts⟩ := hp
  rcases List.append_eq_append_iff.mp hts with ⟨cs, hcs, _⟩ | ⟨qs, rfl, hqs⟩
  · have hzero : ps.length - hd.length = 0 := by
      rw [hcs, List.length_append]
      omega
    rw [hzero]
    by_cases hc : cs = []
    · obtain rfl : hd = ps := by simpa [hc] using hcs
      simpa using hbehind [] List.nil_prefix
    · obtain ⟨s', us', h⟩ := hpiece.silent ps cs hcs hc
      exact ⟨s', us', by rw [complete_zero F.enc F.enc_pos]; exact h⟩
  · rw [List.length_append, Nat.add_sub_cancel_left]
    exact hbehind qs ⟨ts, hqs.symm⟩

end Framing

end Decoder
end Streaming
