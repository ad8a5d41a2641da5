import PyAgent.Streaming.Loop
import PyAgent.Streaming.Decoder

/-!
# Decoders written as loops

The code of a decoder is a loop over a sequence of statements, each of which
looks at the state and acts only when it is its turn. `Works` says what each
statement must do; `Works.loop_fate` then gives everything the whole loop
does: it settles where the decoder settles, crashes where the decoder dies, and
turns forever exactly where the decoder refuses its symbols.
-/

namespace Streaming
set_option autoImplicit false

universe u v w x
variable {σ : Type u} {β : Type v} {ω κ : Type w} {L : Type x}

/-- Where a loop state keeps the decoder's state, its unread symbols and the rest. -/
structure View (L : Type x) (σ : Type u) (β : Type v) (κ : Type w) where
  state : L → σ
  unread : L → List β
  env : L → κ

/-- A statement of a loop body and the decoder states in which it is its turn. -/
structure Stmt (L : Type x) (σ : Type u) where
  on : σ → Prop
  run : L → Flow L

namespace Decoder
variable (D : Decoder σ β ω) (hook : κ → ω → Option κ)

def Comes (s : σ) (us : List β) (k : κ) (s' : σ) (us' : List β) (k' : κ) : Prop :=
  ∃ os, D.Steps s us os s' us' ∧ os.foldlM hook k = some k'

def Dies (s : σ) (us : List β) (k : κ) : Prop :=
  D.need s ≤ us.length ∧ (D.take s (us.take (D.need s)) = .died ∨
    ∃ s' os, D.take s (us.take (D.need s)) = .took s' os ∧ os.foldlM hook k = none)

variable {D hook} {s s' s'' : σ} {us us' us'' : List β} {k k' k'' : κ} {os : List ω}

theorem Comes.refl (s : σ) (us : List β) (k : κ) : D.Comes hook s us k s us k :=
  ⟨[], .refl s us, rfl⟩

theorem Comes.trans (h : D.Comes hook s us k s' us' k')
    (h' : D.Comes hook s' us' k' s'' us'' k'') : D.Comes hook s us k s'' us'' k'' := by
  obtain ⟨os, hs, hk⟩ := h
  obtain ⟨os', hs', hk'⟩ := h'
  refine ⟨os ++ os', hs.trans hs', ?_⟩
  rw [List.foldlM_append, hk]
  exact hk'

theorem Dies.stuck (hd : D.Dies hook s us k) (h : D.Comes hook s us k s' us' k') :
    s' = s ∧ us' = us ∧ k' = k := by
  obtain ⟨os, hs, hk⟩ := h
  cases hs with
  | refl => exact ⟨rfl, rfl, (Option.some.inj hk).symm⟩
  | head _ ht =>
    rcases hd.2 with hd | ⟨s₁, os₁, hd, hn⟩
    · rw [hd] at ht
      cases ht
    · rw [hd] at ht
      obtain ⟨rfl, rfl⟩ := Verdict.took.inj ht
      rw [List.foldlM_append, hn] at hk
      cases hk

theorem Dies.not_waits (hd : D.Dies hook s us k) : ¬ D.Waits s us :=
  fun hw => hw.no_step hd.1

theorem Dies.not_refuses (hd : D.Dies hook s us k) : ¬ D.Refuses s us := by
  intro hrefuses
  obtain ⟨_, hr⟩ := hrefuses
  rcases hd.2 with h | ⟨_, _, h, _⟩ <;> simp [hr] at h

theorem Comes.linear {s₁ s₂ : σ} {us₁ us₂ : List β} {k₁ k₂ : κ}
    (h₁ : D.Comes hook s us k s₁ us₁ k₁) (h₂ : D.Comes hook s us k s₂ us₂ k₂) :
    D.Comes hook s₁ us₁ k₁ s₂ us₂ k₂ ∨ D.Comes hook s₂ us₂ k₂ s₁ us₁ k₁ := by
  obtain ⟨os₁, hs₁, hk₁⟩ := h₁
  obtain ⟨os₂, hs₂, hk₂⟩ := h₂
  rcases hs₁.linear hs₂ with ⟨os, rfl, h⟩ | ⟨os, rfl, h⟩
  · rw [List.foldlM_append, hk₁] at hk₂
    exact .inl ⟨os, h, hk₂⟩
  · rw [List.foldlM_append, hk₂] at hk₁
    exact .inr ⟨os, h, hk₁⟩

theorem Waits.stuck_comes (hw : D.Waits s us) (h : D.Comes hook s us k s' us' k') :
    s' = s ∧ us' = us ∧ k' = k := by
  obtain ⟨os, hs, hk⟩ := h
  obtain ⟨rfl, rfl, rfl⟩ := hw.stuck hs
  exact ⟨rfl, rfl, (Option.some.inj hk).symm⟩

theorem Refuses.stuck_comes (hr : D.Refuses s us) (h : D.Comes hook s us k s' us' k') :
    s' = s ∧ us' = us ∧ k' = k := by
  obtain ⟨os, hs, hk⟩ := h
  obtain ⟨rfl, rfl, rfl⟩ := hr.stuck hs
  exact ⟨rfl, rfl, (Option.some.inj hk).symm⟩

/-- Fields of length zero are taken at once; `slack` bounds how many of them follow each other. -/
structure Measure (D : Decoder σ β ω) where
  slack : σ → Nat
  bound : Nat
  slack_le : ∀ s, slack s ≤ bound
  falls : ∀ s, D.need s = 0 → D.take s [] = .died ∨
    ∃ s' os, D.take s [] = .took s' os ∧ slack s' < slack s

def Measure.rank (M : D.Measure) (s : σ) (us : List β) : Nat :=
  (M.bound + 1) * us.length + M.slack s

theorem Measure.rank_le (M : D.Measure) (s : σ) (us : List β) :
    M.rank s us ≤ (M.bound + 1) * us.length + M.bound :=
  Nat.add_le_add_left (M.slack_le s) _

theorem Measure.rank_lt (M : D.Measure) (hn : D.need s ≤ us.length)
    (ht : D.take s (us.take (D.need s)) = .took s' os) :
    M.rank s' (us.drop (D.need s)) < M.rank s us := by
  unfold rank
  rw [List.length_drop]
  by_cases h0 : D.need s = 0
  · rw [h0, List.take_zero] at ht
    rw [h0, Nat.sub_zero]
    rcases M.falls s h0 with hd | ⟨s₁, os₁, hs₁, hlt⟩
    · rw [hd] at ht
      cases ht
    · rw [hs₁] at ht
      obtain ⟨rfl, rfl⟩ := Verdict.took.inj ht
      exact Nat.add_lt_add_left hlt _
  · have hle := M.slack_le s'
    have hstep : us.length - D.need s + 1 ≤ us.length := by omega
    have hmul := Nat.mul_le_mul_left (M.bound + 1) hstep
    rw [Nat.mul_add, Nat.mul_one] at hmul
    omega

theorem Measure.refuses_pos (M : D.Measure) (hr : D.Refuses s us) : 0 < D.need s := by
  by_contra h0
  have h0 : D.need s = 0 := by omega
  have ht := hr.2
  rw [h0, List.take_zero] at ht
  rcases M.falls s h0 with hd | ⟨_, _, hs, _⟩ <;> simp [ht] at *

end Decoder

section Implements
variable (D : Decoder σ β ω) (M : D.Measure) (hook : κ → ω → Option κ) (V : View L σ β κ)
variable (Inv : L → Prop)

/-- What a statement whose turn it is may do. -/
inductive Meets (l : L) : Flow L → Prop where
  | wait : D.Waits (V.state l) (V.unread l) → Meets l (.leave l)
  | step {l' : L} {os : List ω} : D.need (V.state l) ≤ (V.unread l).length →
      D.take (V.state l) ((V.unread l).take (D.need (V.state l))) = .took (V.state l') os →
      V.unread l' = (V.unread l).drop (D.need (V.state l)) →
      os.foldlM hook (V.env l) = some (V.env l') → Inv l' → Meets l (.next l')
  | refuse : D.Refuses (V.state l) (V.unread l) → Meets l (.next l)
  | crash : D.Dies hook (V.state l) (V.unread l) (V.env l) → Meets l .fault

/-- A field of length zero is read by a later statement of the same pass; `ons` says when it is
each statement's turn. -/
def Ordered : List (σ → Prop) → Prop
  | [] => True
  | b :: bs =>
    (∀ s vs s' os, b s → D.take s vs = .took s' os → D.need s' = 0 → ∃ c ∈ bs, c s') ∧
      Ordered bs

/-- Statements that do the decoder's work, and a loop that goes on while symbols are left. -/
structure Works (cond : L → Bool) (stmts : List (Stmt L σ)) : Prop where
  more : ∀ l, Inv l → V.unread l ≠ [] → cond l = true
  idle : ∀ b ∈ stmts, ∀ l, Inv l → ¬ b.on (V.state l) → b.run l = .next l
  meets : ∀ b ∈ stmts, ∀ l, Inv l → b.on (V.state l) → Meets D hook V Inv l (b.run l)
  covers : ∀ l, Inv l → ∃ b ∈ stmts, b.on (V.state l)
  ordered : Ordered D (stmts.map Stmt.on)

/-- A loop that goes on exactly while symbols are left. -/
structure Implements (cond : L → Bool) (stmts : List (Stmt L σ)) : Prop where
  test : ∀ l, Inv l → (cond l = true ↔ V.unread l ≠ [])
  idle : ∀ b ∈ stmts, ∀ l, Inv l → ¬ b.on (V.state l) → b.run l = .next l
  meets : ∀ b ∈ stmts, ∀ l, Inv l → b.on (V.state l) → Meets D hook V Inv l (b.run l)
  covers : ∀ l, Inv l → ∃ b ∈ stmts, b.on (V.state l)
  ordered : Ordered D (stmts.map Stmt.on)

def body (stmts : List (Stmt L σ)) : L → Flow L := seq (stmts.map Stmt.run)

variable {D M hook V Inv} {cond : L → Bool} {stmts : List (Stmt L σ)}

def Ran (D : Decoder σ β ω) (hook : κ → ω → Option κ) (V : View L σ β κ) (l l' : L) : Prop :=
  D.Comes hook (V.state l) (V.unread l) (V.env l) (V.state l') (V.unread l') (V.env l')

/-- What a pass over some of the statements can do. -/
inductive Pass (D : Decoder σ β ω) (M : D.Measure) (hook : κ → ω → Option κ) (V : View L σ β κ)
    (Inv : L → Prop) (bs : List (Stmt L σ)) (l : L) : Flow L → Prop where
  | same : (∀ b ∈ bs, b.on (V.state l) → D.Refuses (V.state l) (V.unread l)) →
      Pass D M hook V Inv bs l (.next l)
  | moved {l' : L} : Inv l' → Ran D hook V l l' → 0 < D.need (V.state l') →
      M.rank (V.state l') (V.unread l') < M.rank (V.state l) (V.unread l) →
      Pass D M hook V Inv bs l (.next l')
  | left {l' : L} : Inv l' → Ran D hook V l l' → D.Waits (V.state l') (V.unread l') →
      Pass D M hook V Inv bs l (.leave l')
  | died {s : σ} {us : List β} {k : κ} :
      D.Comes hook (V.state l) (V.unread l) (V.env l) s us k → D.Dies hook s us k →
      Pass D M hook V Inv bs l .fault

theorem Implements.works (hI : Implements D hook V Inv cond stmts) :
    Works D hook V Inv cond stmts :=
  ⟨fun l hl => (hI.test l hl).mpr, hI.idle, hI.meets, hI.covers, hI.ordered⟩

namespace Works
variable (M) (hI : Works D hook V Inv cond stmts)
include M hI

theorem pass {bs : List (Stmt L σ)} (ho : Ordered D (bs.map Stmt.on))
    (hsub : ∀ b ∈ bs, b ∈ stmts) {l : L}
    (hl : Inv l) : Pass D M hook V Inv bs l (body bs l) := by
  induction bs generalizing l with
  | nil => exact .same (by simp)
  | cons b bs ih =>
    have ih := fun l hl => ih ho.2 (fun c hc => hsub c (List.mem_cons_of_mem b hc)) (l := l) hl
    by_cases hon : b.on (V.state l)
    · have hm := hI.meets b (hsub b List.mem_cons_self) l hl hon
      generalize hr : b.run l = r at hm
      cases hm with
      | wait hw =>
        have hb : body (b :: bs) l = .leave l := seq_cons_leave hr
        rw [hb]
        exact .left hl (.refl _ _ _) hw
      | crash hd =>
        have hb : body (b :: bs) l = .fault := seq_cons_fault hr
        rw [hb]
        exact .died (.refl _ _ _) hd
      | refuse href =>
        have hb : body (b :: bs) l = body bs l := seq_cons_next hr
        rw [hb]
        have hp := ih l hl
        generalize body bs l = r at hp
        cases hp with
        | same _ => exact .same fun _ _ _ => href
        | moved hl' hran hpos hlt => exact .moved hl' hran hpos hlt
        | left hl' hran hw => exact .left hl' hran hw
        | died hc hd => exact .died hc hd
      | @step l₁ os hn ht hu hk hl₁ =>
        have hb : body (b :: bs) l = body bs l₁ := seq_cons_next hr
        have hran : Ran D hook V l l₁ := ⟨os, by rw [hu]; exact .single hn ht, hk⟩
        have hlt : M.rank (V.state l₁) (V.unread l₁) < M.rank (V.state l) (V.unread l) := by
          rw [hu]
          exact M.rank_lt hn ht
        rw [hb]
        have hp := ih l₁ hl₁
        generalize body bs l₁ = r at hp
        cases hp with
        | same hsame =>
          refine .moved hl₁ hran ?_ hlt
          by_contra h0
          obtain ⟨_, hmem, hcon⟩ := ho.1 _ _ _ _ hon ht (by omega)
          obtain ⟨c, hc, rfl⟩ := List.mem_map.mp hmem
          exact h0 (M.refuses_pos (hsame c hc hcon))
        | moved hl' hran' hpos hlt' => exact .moved hl' (hran.trans hran') hpos (hlt'.trans hlt)
        | left hl' hran' hw => exact .left hl' (hran.trans hran') hw
        | died hc hd => exact .died (hran.trans hc) hd
    · have hb : body (b :: bs) l = body bs l :=
        seq_cons_next (hI.idle b (hsub b List.mem_cons_self) l hl hon)
      rw [hb]
      have hp := ih l hl
      generalize body bs l = r at hp
      cases hp with
      | same hsame =>
        refine .same fun c hc hcon => ?_
        rcases List.mem_cons.mp hc with rfl | hc
        · exact absurd hcon hon
        · exact hsame c hc hcon
      | moved hl' hran hpos hlt => exact .moved hl' hran hpos hlt
      | left hl' hran hw => exact .left hl' hran hw
      | died hc hd => exact .died hc hd

theorem pass_all {l : L} (hl : Inv l) : Pass D M hook V Inv stmts l (body stmts l) :=
  hI.pass M hI.ordered (fun _ hb => hb) hl

theorem not_stops_of_refuses {l : L} (hl : Inv l)
    (hr : D.Refuses (V.state l) (V.unread l)) : ¬ Stops cond (body stmts) l := by
  refine not_stops_of_trap (fun m => m = l) ?_ rfl
  intro m hl
  subst hl
  have hpos := M.refuses_pos hr
  have hne : V.unread m ≠ [] := by
    intro h
    have := hr.1
    rw [h, List.length_nil] at this
    omega
  refine ⟨hI.more m hl hne, m, ?_, rfl⟩
  have hp := hI.pass_all M hl
  generalize body stmts m = r at hp
  cases hp with
  | same _ => rfl
  | moved _ hran _ hlt =>
    obtain ⟨hs, hu, _⟩ := hr.stuck_comes hran
    rw [hs, hu] at hlt
    omega
  | left _ hran hw =>
    obtain ⟨hs, hu, _⟩ := hr.stuck_comes hran
    rw [hs, hu] at hw
    exact absurd hw hr.not_waits
  | died hc hd =>
    obtain ⟨rfl, rfl, rfl⟩ := hr.stuck_comes hc
    exact absurd hr hd.not_refuses

end Works

/-- How the loop as a whole can end. -/
inductive Fate (D : Decoder σ β ω) (hook : κ → ω → Option κ) (V : View L σ β κ)
    (Inv : L → Prop) (cond : L → Bool) (stmts : List (Stmt L σ)) (n : Nat) (l : L) : Prop where
  | settles (l' : L) : loop cond (body stmts) n l = some (.done l') → Inv l' →
      Ran D hook V l l' → D.Waits (V.state l') (V.unread l') → Fate D hook V Inv cond stmts n l
  | crashes (s : σ) (us : List β) (k : κ) : loop cond (body stmts) n l = some .crash →
      D.Comes hook (V.state l) (V.unread l) (V.env l) s us k → D.Dies hook s us k →
      Fate D hook V Inv cond stmts n l
  | turns (s : σ) (us : List β) (k : κ) : ¬ Stops cond (body stmts) l →
      D.Comes hook (V.state l) (V.unread l) (V.env l) s us k → D.Refuses s us →
      Fate D hook V Inv cond stmts n l

theorem not_stops_next {body : L → Flow L} {l l' : L} (hc : cond l = true)
    (hb : body l = .next l') (h : ¬ Stops cond body l') : ¬ Stops cond body l := by
  intro hstops
  obtain ⟨n, r, hr⟩ := hstops
  cases n with
  | zero => simp [loop] at hr
  | succ n =>
    rw [loop_next hc hb] at hr
    exact h ⟨n, r, hr⟩

namespace Works
variable (M) (hI : Works D hook V Inv cond stmts)
include M hI

theorem loop_fate {l : L} (hl : Inv l)
    (hstart : cond l = false → D.Waits (V.state l) (V.unread l)) {n : Nat}
    (hn : M.rank (V.state l) (V.unread l) + 2 ≤ n) : Fate D hook V Inv cond stmts n l := by
  induction hm : M.rank (V.state l) (V.unread l) using Nat.strong_induction_on
    generalizing l n with
  | _ m ih =>
  subst hm
  obtain ⟨n, rfl⟩ : ∃ k, n = k + 1 := ⟨n - 1, by omega⟩
  cases hc : cond l with
  | false =>
    exact .settles l (loop_exit hc n) hl (.refl _ _ _) (hstart hc)
  | true =>
    have hp := hI.pass_all M hl
    generalize hr : body stmts l = r at hp
    cases hp with
    | same hsame =>
      obtain ⟨b, hb, hon⟩ := hI.covers l hl
      have href := hsame b hb hon
      exact .turns _ _ _ (hI.not_stops_of_refuses M hl href) (.refl _ _ _) href
    | @moved l' hl' hran hpos hlt =>
      have hw : cond l' = false → D.Waits (V.state l') (V.unread l') := by
        intro hc'
        have hnil : V.unread l' = [] := by
          by_contra hne
          rw [hI.more l' hl' hne] at hc'
          cases hc'
        rw [hnil]
        exact hpos
      cases ih _ hlt hl' hw (n := n) (by omega) rfl with
      | settles l'' hloop hl'' hran' hwait =>
        exact .settles l'' (by rw [loop_next hc hr]; exact hloop) hl'' (hran.trans hran') hwait
      | crashes s us k hloop hcomes hdies =>
        exact .crashes s us k (by rw [loop_next hc hr]; exact hloop) (hran.trans hcomes) hdies
      | turns s us k hstop hcomes href =>
        exact .turns s us k (not_stops_next hc hr hstop) (hran.trans hcomes) href
    | left hl' hran hw => exact .settles _ (loop_leave hc hr n) hl' hran hw
    | died hcomes hd => exact .crashes _ _ _ (loop_fault hc hr n) hcomes hd

theorem loop_settles {l : L} (hl : Inv l)
    (hstart : cond l = false → D.Waits (V.state l) (V.unread l)) {n : Nat}
    (hn : (M.bound + 1) * (V.unread l).length + M.bound + 2 ≤ n) {os : List ω} {s' : σ}
    {us' : List β} {k' : κ}
    (hs : D.Settles (V.state l) (V.unread l) os s' us')
    (hk : os.foldlM hook (V.env l) = some k') :
    ∃ l', loop cond (body stmts) n l = some (.done l') ∧ Inv l' ∧
      V.state l' = s' ∧ V.unread l' = us' ∧ V.env l' = k' := by
  have hrank := M.rank_le (V.state l) (V.unread l)
  have hcomes : D.Comes hook (V.state l) (V.unread l) (V.env l) s' us' k' := ⟨os, hs.1, hk⟩
  cases hI.loop_fate M hl hstart (n := n) (by omega) with
  | settles l' hloop hl' hran hw =>
    refine ⟨l', hloop, hl', ?_⟩
    rcases Decoder.Comes.linear hran hcomes with h | h
    · obtain ⟨rfl, rfl, rfl⟩ := hw.stuck_comes h
      exact ⟨rfl, rfl, rfl⟩
    · exact hs.2.stuck_comes h
  | crashes s us k _ hc hd =>
    rcases hc.linear hcomes with h | h
    · obtain ⟨rfl, rfl, rfl⟩ := hd.stuck h
      exact absurd hs.2 hd.not_waits
    · obtain ⟨rfl, rfl, rfl⟩ := hs.2.stuck_comes h
      exact absurd hs.2 hd.not_waits
  | turns s us k _ hc hr =>
    rcases hc.linear hcomes with h | h
    · obtain ⟨rfl, rfl, rfl⟩ := hr.stuck_comes h
      exact absurd hs.2 hr.not_waits
    · obtain ⟨rfl, rfl, rfl⟩ := hs.2.stuck_comes h
      exact absurd hs.2 hr.not_waits

/-- A loop that ends without a crash has taken the decoder to where it settles. -/
theorem loop_done {l l' : L} (hl : Inv l)
    (hstart : cond l = false → D.Waits (V.state l) (V.unread l)) {n : Nat}
    (hn : (M.bound + 1) * (V.unread l).length + M.bound + 2 ≤ n)
    (h : loop cond (body stmts) n l = some (.done l')) :
    Inv l' ∧ ∃ os, D.Settles (V.state l) (V.unread l) os (V.state l') (V.unread l') ∧
      os.foldlM hook (V.env l) = some (V.env l') := by
  have hrank := M.rank_le (V.state l) (V.unread l)
  cases hI.loop_fate M hl hstart (n := n) (by omega) with
  | settles l'' hloop hl'' hran hw =>
    have heq := Option.some.inj (hloop.symm.trans h)
    obtain rfl : l'' = l' := Exit.done.inj heq
    obtain ⟨os, hs, hk⟩ := hran
    exact ⟨hl'', os, ⟨hs, hw⟩, hk⟩
  | crashes s us k hloop _ _ =>
    have heq := Option.some.inj (hloop.symm.trans h)
    cases heq
  | turns s us k hstop _ _ => exact absurd ⟨n, _, h⟩ hstop

end Works

namespace Implements
variable (M) (hI : Implements D hook V Inv cond stmts)
include hI

theorem unread_eq_nil {l : L} (hl : Inv l) (hc : cond l = false) : V.unread l = [] := by
  by_contra hne
  rw [(hI.test l hl).mpr hne] at hc
  cases hc

include M

theorem loop_settles {l : L} (hl : Inv l)
    (hstart : V.unread l = [] → D.Waits (V.state l) (V.unread l)) {n : Nat}
    (hn : (M.bound + 1) * (V.unread l).length + M.bound + 2 ≤ n) {os : List ω} {s' : σ}
    {us' : List β} {k' : κ}
    (hs : D.Settles (V.state l) (V.unread l) os s' us')
    (hk : os.foldlM hook (V.env l) = some k') :
    ∃ l', loop cond (body stmts) n l = some (.done l') ∧ Inv l' ∧
      V.state l' = s' ∧ V.unread l' = us' ∧ V.env l' = k' :=
  hI.works.loop_settles M hl (fun hc => hstart (hI.unread_eq_nil hl hc)) hn hs hk

theorem loop_done {l l' : L} (hl : Inv l)
    (hstart : V.unread l = [] → D.Waits (V.state l) (V.unread l)) {n : Nat}
    (hn : (M.bound + 1) * (V.unread l).length + M.bound + 2 ≤ n)
    (h : loop cond (body stmts) n l = some (.done l')) :
    Inv l' ∧ ∃ os, D.Settles (V.state l) (V.unread l) os (V.state l') (V.unread l') ∧
      os.foldlM hook (V.env l) = some (V.env l') :=
  hI.works.loop_done M hl (fun hc => hstart (hI.unread_eq_nil hl hc)) hn h

/-- The loop goes on forever exactly when the decoder comes to symbols it refuses. -/
theorem stops_iff {l : L} (hl : Inv l) :
    Stops cond (body stmts) l ↔
      ¬ ∃ s us k, D.Comes hook (V.state l) (V.unread l) (V.env l) s us k ∧ D.Refuses s us := by
  by_cases hnil : V.unread l = []
  · -- the loop is over before its first pass, and nothing is refused without symbols
    have hc : cond l = false := by
      rw [← Bool.not_eq_true, hI.test l hl]
      exact not_not_intro hnil
    refine iff_of_true ⟨1, _, loop_exit hc 0⟩ ?_
    intro hcomes
    obtain ⟨s, us, k, ⟨os, hs, _⟩, hr⟩ := hcomes
    have hsuf := hs.suffix
    rw [hnil, List.suffix_nil] at hsuf
    have hpos := M.refuses_pos hr
    have := hr.1
    rw [hsuf, List.length_nil] at this
    omega
  have hstart : cond l = false → D.Waits (V.state l) (V.unread l) :=
    fun hc => absurd (hI.unread_eq_nil hl hc) hnil
  cases hI.works.loop_fate M hl hstart (n := _) (Nat.le_refl _) with
  | settles l' hloop _ hran hw =>
    refine iff_of_true ⟨_, _, hloop⟩ ?_
    intro hcomes
    obtain ⟨s, us, k, hc, hr⟩ := hcomes
    rcases hc.linear hran with h | h
    · obtain ⟨hs, hu, _⟩ := hr.stuck_comes h
      rw [hs, hu] at hw
      exact hr.not_waits hw
    · obtain ⟨rfl, rfl, rfl⟩ := hw.stuck_comes h
      exact hr.not_waits hw
  | crashes s us k hloop hc hd =>
    refine iff_of_true ⟨_, _, hloop⟩ ?_
    intro hcomes
    obtain ⟨s', us', k', hc', hr⟩ := hcomes
    rcases hc.linear hc' with h | h
    · obtain ⟨rfl, rfl, rfl⟩ := hd.stuck h
      exact hd.not_refuses hr
    · obtain ⟨rfl, rfl, rfl⟩ := hr.stuck_comes h
      exact hd.not_refuses hr
  | turns s us k hstop hc hr => exact iff_of_false hstop (fun h => h ⟨s, us, k, hc, hr⟩)

end Implements
end Implements
end Streaming
