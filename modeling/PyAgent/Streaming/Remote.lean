import Mathlib.Logic.Function.Basic
import Mathlib.Logic.Relation
import Mathlib.Data.List.Nodup
import Mathlib.Data.List.Forall2

/-!
# Remote calls

What a network of agents is for, with no network in it: callers make calls, and a call
that has been made is answered at most once, by whatever serves it, in any order.
-/

namespace Streaming
set_option autoImplicit false

universe u v w
variable {ι : Type u} {ε : Type v} {ν : Type w}

/-- The calls of each caller and the answers it has been handed, each with the position of its
call. -/
structure Remote (ι : Type u) (ε : Type v) (ν : Type w) where
  issued : ι → List ε
  answers : ι → List (Nat × ν)

namespace Remote

def start : Remote ι ε ν := ⟨fun _ => [], fun _ => []⟩

section
variable [DecidableEq ι]

def call (r : Remote ι ε ν) (i : ι) (e : ε) : Remote ι ε ν :=
  ⟨Function.update r.issued i (r.issued i ++ [e]), r.answers⟩

def answerAll (r : Remote ι ε ν) (i : ι) (vs : List (Nat × ν)) : Remote ι ε ν :=
  ⟨r.issued, Function.update r.answers i (r.answers i ++ vs)⟩

@[simp] theorem call_issued_self (r : Remote ι ε ν) (i : ι) (e : ε) :
    (r.call i e).issued i = r.issued i ++ [e] := Function.update_self _ _ _

theorem call_issued_of_ne (r : Remote ι ε ν) {i i' : ι} (h : i' ≠ i) (e : ε) :
    (r.call i e).issued i' = r.issued i' := Function.update_of_ne h _ _

@[simp] theorem answerAll_answers_self (r : Remote ι ε ν) (i : ι) (vs : List (Nat × ν)) :
    (r.answerAll i vs).answers i = r.answers i ++ vs := Function.update_self _ _ _

theorem answerAll_answers_of_ne (r : Remote ι ε ν) {i i' : ι} (h : i' ≠ i)
    (vs : List (Nat × ν)) : (r.answerAll i vs).answers i' = r.answers i' :=
  Function.update_of_ne h _ _

inductive Step (serves : ε → ν → Prop) : Remote ι ε ν → Remote ι ε ν → Prop where
  | call (r : Remote ι ε ν) (i : ι) (e : ε) : Step serves r (r.call i e)
  | answer (r : Remote ι ε ν) (i : ι) (j : Nat) (v : ν) (e : ε) (he : (r.issued i)[j]? = some e)
      (hnew : j ∉ (r.answers i).map Prod.fst) (hv : serves e v) :
      Step serves r (r.answerAll i [(j, v)])

def Reached (serves : ε → ν → Prop) : Remote ι ε ν → Prop :=
  Relation.ReflTransGen (Step serves) start

end

/-- No call is answered twice, and every answer is one to its call. -/
structure Sound (serves : ε → ν → Prop) (r : Remote ι ε ν) : Prop where
  once : ∀ i, ((r.answers i).map Prod.fst).Nodup
  right : ∀ i j v, (j, v) ∈ r.answers i → ∃ e, (r.issued i)[j]? = some e ∧ serves e v

variable {serves : ε → ν → Prop} {r : Remote ι ε ν}

theorem Sound.answered_lt (hr : r.Sound serves) {i : ι} {j : Nat}
    (hj : j ∈ (r.answers i).map Prod.fst) : j < (r.issued i).length := by
  obtain ⟨⟨j, v⟩, hmem, rfl⟩ := List.mem_map.mp hj
  obtain ⟨e, he, _⟩ := hr.right i j v hmem
  exact (List.getElem?_eq_some_iff.mp he).1

/-- What a caller sees of its answers is for one of its calls, and for what that call was served. -/
theorem Sound.served {ω : Type*} (hr : r.Sound serves) (sees : ε → ν → ω → Prop) {i : ι}
    {seen : List ω} (hseen : List.Forall₂ (fun answer x =>
      ∃ e, (r.issued i)[answer.1]? = some e ∧ sees e answer.2 x) (r.answers i) seen) {x : ω}
    (hx : x ∈ seen) : ∃ e ∈ r.issued i, ∃ v, serves e v ∧ sees e v x := by
  obtain ⟨n, hn, rfl⟩ := List.mem_iff_getElem.mp hx
  obtain ⟨hlen, hpairs⟩ := List.forall₂_iff_get.mp hseen
  have hn' : n < (r.answers i).length := hlen ▸ hn
  obtain ⟨e, he, hsees⟩ := hpairs n hn' hn
  obtain ⟨e', he', hserves⟩ := hr.right i _ _ (List.get_mem (r.answers i) ⟨n, hn'⟩)
  obtain rfl : e' = e := Option.some.inj (he'.symm.trans he)
  exact ⟨e', List.mem_of_getElem? he, _, hserves, hsees⟩

variable [DecidableEq ι]

theorem Sound.call (hr : r.Sound serves) (i : ι) (e : ε) : (r.call i e).Sound serves := by
  refine ⟨hr.once, ?_⟩
  intro i' j v hmem
  obtain ⟨e', he', hv⟩ := hr.right i' j v hmem
  refine ⟨e', ?_, hv⟩
  by_cases hi : i' = i
  · subst hi
    have hlt := (List.getElem?_eq_some_iff.mp he').1
    rw [call_issued_self, List.getElem?_append_left hlt]
    exact he'
  · rw [call_issued_of_ne r hi]
    exact he'

theorem Sound.answerAll (hr : r.Sound serves) {i : ι} {vs : List (Nat × ν)}
    (honce : ((r.answers i ++ vs).map Prod.fst).Nodup)
    (hright : ∀ j v, (j, v) ∈ vs → ∃ e, (r.issued i)[j]? = some e ∧ serves e v) :
    (r.answerAll i vs).Sound serves := by
  constructor
  · intro i'
    by_cases hi : i' = i
    · subst hi
      rw [answerAll_answers_self]
      exact honce
    · rw [answerAll_answers_of_ne r hi]
      exact hr.once i'
  · intro i' j v hmem
    by_cases hi : i' = i
    · subst hi
      rw [answerAll_answers_self] at hmem
      rcases List.mem_append.mp hmem with hmem | hmem
      · exact hr.right i' j v hmem
      · exact hright j v hmem
    · rw [answerAll_answers_of_ne r hi] at hmem
      exact hr.right i' j v hmem

theorem Reached.sound (h : Reached serves r) : r.Sound serves := by
  induction h with
  | refl => exact ⟨by simp [start], by simp [start]⟩
  | tail _ hstep ih =>
    cases hstep with
    | call i e => exact ih.call i e
    | answer i j v e he hnew hv =>
      apply ih.answerAll
      · rw [List.map_append]
        exact List.nodup_append.mpr ⟨ih.once i, List.nodup_singleton j, by
          intro k hk k' hk' heq
          obtain rfl : k' = j := List.mem_singleton.mp hk'
          exact hnew (heq ▸ hk)⟩
      · intro j' v' hmem
        obtain ⟨rfl, rfl⟩ := Prod.mk.inj (List.mem_singleton.mp hmem)
        exact ⟨e, he, hv⟩

/-- Any number of answers to one caller. -/
theorem Reached.answerAll (h : Reached serves r) {i : ι} {vs : List (Nat × ν)}
    (honce : ((r.answers i ++ vs).map Prod.fst).Nodup)
    (hright : ∀ j v, (j, v) ∈ vs → ∃ e, (r.issued i)[j]? = some e ∧ serves e v) :
    Reached serves (r.answerAll i vs) := by
  induction vs generalizing r with
  | nil =>
    have hsame : r.answerAll i [] = r := by
      rw [Remote.answerAll, List.append_nil, Function.update_eq_self]
    rw [hsame]
    exact h
  | cons a vs ih =>
    obtain ⟨j, v⟩ := a
    obtain ⟨e, he, hv⟩ := hright j v List.mem_cons_self
    have hnew : j ∉ (r.answers i).map Prod.fst := by
      rw [List.map_append, List.nodup_append] at honce
      intro hmem
      exact honce.2.2 j hmem j List.mem_cons_self rfl
    have hsplit : r.answerAll i ((j, v) :: vs) = (r.answerAll i [(j, v)]).answerAll i vs := by
      simp [Remote.answerAll]
    rw [hsplit]
    apply ih (h.tail (.answer r i j v e he hnew hv))
    · rw [answerAll_answers_self, List.append_assoc]
      exact honce
    · intro j' v' hmem
      exact hright j' v' (List.mem_cons_of_mem _ hmem)

end Remote
end Streaming
