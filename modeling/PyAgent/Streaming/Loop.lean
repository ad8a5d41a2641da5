import Mathlib.Logic.Basic
import Mathlib.Data.List.Basic

/-!
# Loops with `break`

`Flow` is how one statement of a loop body ends: control falls through to the
following statement, `break` leaves the loop, or the statement is undefined
behaviour. A body is a list of statements. `loop` makes a bounded number of
passes, so a loop that never ends is one that no bound is enough for.
-/

namespace Streaming
set_option autoImplicit false

universe u
variable {σ : Type u}

inductive Flow (σ : Type u) where
  | next (s : σ)
  | leave (s : σ)
  | fault

def seq : List (σ → Flow σ) → σ → Flow σ
  | [], s => .next s
  | b :: bs, s =>
    match b s with
    | .next s' => seq bs s'
    | .leave s' => .leave s'
    | .fault => .fault

@[simp] theorem seq_nil (s : σ) : seq [] s = .next s := rfl

theorem seq_cons_next {b : σ → Flow σ} {bs : List (σ → Flow σ)} {s s' : σ}
    (h : b s = .next s') : seq (b :: bs) s = seq bs s' := by
  simp [seq, h]

theorem seq_cons_leave {b : σ → Flow σ} {bs : List (σ → Flow σ)} {s s' : σ}
    (h : b s = .leave s') : seq (b :: bs) s = .leave s' := by
  simp [seq, h]

theorem seq_cons_fault {b : σ → Flow σ} {bs : List (σ → Flow σ)} {s : σ}
    (h : b s = .fault) : seq (b :: bs) s = .fault := by
  simp [seq, h]

theorem seq_singleton (b : σ → Flow σ) (s : σ) : seq [b] s = b s := by
  cases h : b s with
  | next s' => rw [seq_cons_next h, seq_nil]
  | leave s' => rw [seq_cons_leave h]
  | fault => rw [seq_cons_fault h]

theorem seq_cons_congr {b b' : σ → Flow σ} {s : σ} (h : b s = b' s) (bs : List (σ → Flow σ)) :
    seq (b :: bs) s = seq (b' :: bs) s := by
  simp only [seq, h]

theorem seq_append (as bs : List (σ → Flow σ)) (s : σ) :
    seq (as ++ bs) s = seq [seq as, seq bs] s := by
  induction as generalizing s with
  | nil =>
    rw [List.nil_append, seq_cons_next (seq_nil s)]
    cases h : seq bs s with
    | next s' => rw [seq_cons_next h, seq_nil]
    | leave s' => rw [seq_cons_leave h]
    | fault => rw [seq_cons_fault h]
  | cons a as ih =>
    cases ha : a s with
    | next s' =>
      rw [List.cons_append, seq_cons_next ha, ih]
      simp only [seq, ha]
    | leave s' => rw [List.cons_append, seq_cons_leave ha, seq_cons_leave (seq_cons_leave ha)]
    | fault => rw [List.cons_append, seq_cons_fault ha, seq_cons_fault (seq_cons_fault ha)]

def Flow.map {τ : Type u} (f : σ → τ) : Flow σ → Flow τ
  | .next s => .next (f s)
  | .leave s => .leave (f s)
  | .fault => .fault

/-- What a statement does to the part `f` of the state that determines all of it by `g`. -/
def part {τ : Type u} (f : σ → τ) (g : τ → σ) (b : σ → Flow σ) (t : τ) : Flow τ := (b (g t)).map f

theorem seq_part {τ : Type u} {f : σ → τ} {g : τ → σ} {bs : List (σ → Flow σ)}
    (hkeep : ∀ b ∈ bs.dropLast, ∀ s s', g (f s) = s → b s = .next s' → g (f s') = s') {s : σ}
    (hs : g (f s) = s) : (seq bs s).map f = seq (bs.map (part f g)) (f s) := by
  induction bs generalizing s with
  | nil => rfl
  | cons b bs ih =>
    have hb : part f g b (f s) = (b s).map f := by rw [part, hs]
    rw [List.map_cons]
    cases hr : b s with
    | leave s' =>
      rw [hr] at hb
      rw [seq_cons_leave hr, seq_cons_leave hb]
      rfl
    | fault =>
      rw [hr] at hb
      rw [seq_cons_fault hr, seq_cons_fault hb]
      rfl
    | next s' =>
      rw [hr] at hb
      rw [seq_cons_next hr, seq_cons_next hb]
      cases bs with
      | nil => rfl
      | cons c bs =>
        apply ih (fun d hd => hkeep d (by simp [hd]))
        exact hkeep b (by simp) s s' hs hr

/-- `if(g) {...}` -/
def guarded (g : σ → Bool) (b : σ → Flow σ) (s : σ) : Flow σ := if g s then b s else .next s

/-- A block whose guard holds up to its last statement can be guarded statement by statement. -/
theorem guarded_seq {g : σ → Bool} {bs : List (σ → Flow σ)}
    (hkeep : ∀ b ∈ bs.dropLast, ∀ s s', g s → b s = .next s' → g s') (s : σ) :
    guarded g (seq bs) s = seq (bs.map (guarded g)) s := by
  induction bs generalizing s with
  | nil => simp [guarded]
  | cons b bs ih =>
    by_cases hg : g s = true
    · have hb : guarded g b s = b s := if_pos hg
      rw [guarded, if_pos hg, List.map_cons]
      cases hr : b s with
      | leave s' => rw [seq_cons_leave hr, seq_cons_leave (hb.trans hr)]
      | fault => rw [seq_cons_fault hr, seq_cons_fault (hb.trans hr)]
      | next s' =>
        rw [seq_cons_next hr, seq_cons_next (hb.trans hr)]
        cases bs with
        | nil => rfl
        | cons c bs =>
          have hg' := hkeep b (by simp) s s' hg hr
          rw [← ih (fun d hd => hkeep d (by simp [hd])), guarded, if_pos hg']
    · have hb : guarded g b s = .next s := if_neg hg
      have hinner : ∀ d ∈ bs.dropLast, d ∈ (b :: bs).dropLast := by
        intro d hd
        cases bs with
        | nil => simp at hd
        | cons c bs => simp [hd]
      have hrest := ih (fun d hd => hkeep d (hinner d hd)) s
      rw [guarded, if_neg hg] at hrest
      rw [guarded, if_neg hg, List.map_cons, seq_cons_next hb, ← hrest]

inductive Exit (σ : Type u) where
  | done (s : σ)
  | crash

/-- `while (cond) body` for at most `n` tests of `cond`; `none` when that is not enough. -/
def loop (cond : σ → Bool) (body : σ → Flow σ) : Nat → σ → Option (Exit σ)
  | 0, _ => none
  | n + 1, s =>
    if cond s then
      match body s with
      | .next s' => loop cond body n s'
      | .leave s' => some (.done s')
      | .fault => some .crash
    else some (.done s)

def Exit.map {τ : Type u} (f : σ → τ) : Exit σ → Exit τ
  | .done s => .done (f s)
  | .crash => .crash

/-- The states between two statements of a loop, and the statements that are still to be done. -/
inductive Moments (cond : σ → Bool) (bs : List (σ → Flow σ)) (s₀ : σ) :
    List (σ → Flow σ) → σ → Prop where
  | start : Moments cond bs s₀ [] s₀
  | test {s : σ} : Moments cond bs s₀ [] s → cond s = true → Moments cond bs s₀ bs s
  | stmt {b : σ → Flow σ} {todo : List (σ → Flow σ)} {s s' : σ} :
      Moments cond bs s₀ (b :: todo) s → b s = .next s' → Moments cond bs s₀ todo s'

def Stops (cond : σ → Bool) (body : σ → Flow σ) (s : σ) : Prop :=
  ∃ n r, loop cond body n s = some r

section
variable {cond : σ → Bool} {body : σ → Flow σ}

theorem loop_exit {s : σ} (hc : cond s = false) (n : Nat) :
    loop cond body (n + 1) s = some (.done s) := by
  simp [loop, hc]

theorem loop_next {s s' : σ} (hc : cond s = true) (hb : body s = .next s') (n : Nat) :
    loop cond body (n + 1) s = loop cond body n s' := by
  simp [loop, hc, hb]

theorem loop_leave {s s' : σ} (hc : cond s = true) (hb : body s = .leave s') (n : Nat) :
    loop cond body (n + 1) s = some (.done s') := by
  simp [loop, hc, hb]

theorem loop_fault {s : σ} (hc : cond s = true) (hb : body s = .fault) (n : Nat) :
    loop cond body (n + 1) s = some .crash := by
  simp [loop, hc, hb]

theorem loop_succ {n : Nat} {s : σ} {r : Exit σ} (h : loop cond body n s = some r) :
    loop cond body (n + 1) s = some r := by
  induction n generalizing s with
  | zero => simp [loop] at h
  | succ n ih =>
    cases hc : cond s with
    | false => rw [loop_exit hc] at h ⊢; exact h
    | true =>
      cases hb : body s with
      | next s' =>
        rw [loop_next hc hb] at h ⊢
        exact ih h
      | leave s' => rw [loop_leave hc hb] at h ⊢; exact h
      | fault => rw [loop_fault hc hb] at h ⊢; exact h

theorem loop_mono {n m : Nat} (hnm : n ≤ m) {s : σ} {r : Exit σ}
    (h : loop cond body n s = some r) : loop cond body m s = some r := by
  induction hnm with
  | refl => exact h
  | step _ ih => exact loop_succ ih

theorem loop_unique {n m : Nat} {s : σ} {r r' : Exit σ} (h : loop cond body n s = some r)
    (h' : loop cond body m s = some r') : r = r' := by
  have hm := loop_mono (Nat.le_max_left n m) h
  have hm' := loop_mono (Nat.le_max_right n m) h'
  exact Option.some.inj (hm.symm.trans hm')

theorem loop_map {τ : Type u} {f : σ → τ} {cond' : τ → Bool} {body' : τ → Flow τ}
    (hcond : ∀ s, cond' (f s) = cond s) (hbody : ∀ s, body' (f s) = (body s).map f) (n : Nat)
    (s : σ) : loop cond' body' n (f s) = (loop cond body n s).map (Exit.map f) := by
  induction n generalizing s with
  | zero => rfl
  | succ n ih =>
    have hc' := hcond s
    have hb' := hbody s
    cases hc : cond s with
    | false =>
      rw [hc] at hc'
      rw [loop_exit hc, loop_exit hc']
      rfl
    | true =>
      rw [hc] at hc'
      cases hb : body s with
      | next s' =>
        rw [hb] at hb'
        rw [loop_next hc hb, loop_next hc' hb']
        exact ih s'
      | leave s' =>
        rw [hb] at hb'
        rw [loop_leave hc hb, loop_leave hc' hb']
        rfl
      | fault =>
        rw [hb] at hb'
        rw [loop_fault hc hb, loop_fault hc' hb']
        rfl

/-- What every statement keeps holds between any two of them. -/
theorem Moments.inv {bs todo : List (σ → Flow σ)} {s₀ s : σ} (h : Moments cond bs s₀ todo s)
    {P : σ → Prop} (hP : ∀ b ∈ bs, ∀ s s', P s → b s = .next s' → P s') (h₀ : P s₀) :
    P s ∧ todo ⊆ bs := by
  induction h with
  | start => exact ⟨h₀, List.nil_subset bs⟩
  | test _ _ ih => exact ⟨ih.1, List.Subset.refl bs⟩
  | @stmt b todo s s' _ hb ih =>
    obtain ⟨hs, hsub⟩ := ih
    obtain ⟨hmem, hsub'⟩ := List.cons_subset.mp hsub
    exact ⟨hP b hmem s s' hs hb, hsub'⟩

/-- However the statement ends, `P` still holds. -/
def Keeps (P : σ → Prop) (b : σ → Flow σ) : Prop :=
  ∀ s s', P s → b s = .next s' ∨ b s = .leave s' → P s'

theorem seq_keeps {P : σ → Prop} {bs : List (σ → Flow σ)} (hbs : ∀ b ∈ bs, Keeps P b) :
    Keeps P (seq bs) := by
  induction bs with
  | nil =>
    intro s s' hs h
    rcases h with h | h
    · exact Flow.next.inj h ▸ hs
    · cases h
  | cons b bs ih =>
    have ih := ih fun b' hb' => hbs b' (List.mem_cons_of_mem b hb')
    intro s s' hs h
    have hb := hbs b List.mem_cons_self s
    cases hr : b s with
    | next t =>
      rw [seq_cons_next hr] at h
      exact ih t s' (hb t hs (Or.inl hr)) h
    | leave t =>
      rw [seq_cons_leave hr] at h
      rcases h with h | h
      · cases h
      · exact Flow.leave.inj h ▸ hb t hs (Or.inr hr)
    | fault =>
      rw [seq_cons_fault hr] at h
      rcases h with h | h <;> cases h

theorem loop_keeps {P : σ → Prop} (hbody : Keeps P body) {n : Nat} {s s' : σ} (hs : P s)
    (h : loop cond body n s = some (.done s')) : P s' := by
  induction n generalizing s with
  | zero => cases h
  | succ n ih =>
    cases hc : cond s with
    | false =>
      rw [loop_exit hc] at h
      exact Exit.done.inj (Option.some.inj h) ▸ hs
    | true =>
      cases hb : body s with
      | next t =>
        rw [loop_next hc hb] at h
        exact ih (hbody s t hs (Or.inl hb)) h
      | leave t =>
        rw [loop_leave hc hb] at h
        exact Exit.done.inj (Option.some.inj h) ▸ hbody s t hs (Or.inr hb)
      | fault =>
        rw [loop_fault hc hb] at h
        cases h

theorem loop_total {μ : σ → Nat}
    (hμ : ∀ s, cond s = true → ∃ s', body s = .next s' ∧ μ s' < μ s) {n : Nat} {s : σ}
    (hn : μ s < n) : ∃ s', loop cond body n s = some (.done s') := by
  induction n generalizing s with
  | zero => omega
  | succ n ih =>
    cases hc : cond s with
    | false => exact ⟨s, loop_exit hc n⟩
    | true =>
      obtain ⟨s', hb, hlt⟩ := hμ s hc
      rw [loop_next hc hb]
      exact ih (by omega)

/-- A set of states that every pass stays in, and whose tests all succeed, is never left. -/
theorem not_stops_of_trap (T : σ → Prop)
    (hT : ∀ s, T s → cond s = true ∧ ∃ s', body s = .next s' ∧ T s')
    {s : σ} (hs : T s) : ¬ Stops cond body s := by
  intro hstops
  obtain ⟨n, r, h⟩ := hstops
  induction n generalizing s with
  | zero => simp [loop] at h
  | succ n ih =>
    obtain ⟨hc, s', hb, hs'⟩ := hT s hs
    rw [loop_next hc hb] at h
    exact ih hs' h

end

end Streaming
