import PyAgent.Streaming.Interleave
import PyAgent.Streaming.Remote
import Mathlib.Data.List.Forall2
import Mathlib.Data.Option.Basic
import Mathlib.Data.List.Induction

/-!
# Remote calls, regrouped

Somebody makes calls for others on a number of lines, and hands on the answers as
they come. Whatever goes on between the lines, those others see remote calls of
their own (`Log.Sound.reached`, `exists_log`).
-/

namespace Streaming
set_option autoImplicit false

universe u v w x
variable {ι : Type u} {ε : Type v} {ν : Type w} {κ : Type x}

/-- All calls in the order they were made, and all answers in the order they came, each with the
number of its call. -/
structure Log (ε : Type v) (ν : Type w) where
  calls : List ε
  answers : List (Nat × ν)

namespace Log

structure Sound (serves : ε → ν → Prop) (log : Log ε ν) : Prop where
  once : (log.answers.map Prod.fst).Nodup
  right : ∀ a ∈ log.answers, ∃ e, log.calls[a.1]? = some e ∧ serves e a.2

section
variable [DecidableEq κ] (caller : ε → κ)

/-- An answer as its caller counts. -/
def seen (c : κ) (calls : List ε) (a : Nat × ν) : Option (Nat × ν) :=
  calls[a.1]?.bind fun e => if caller e = c then some (rank caller c calls a.1, a.2) else none

/-- What each caller sees. -/
def remote (log : Log ε ν) : Remote κ ε ν where
  issued c := ownedBy caller c log.calls
  answers c := log.answers.filterMap (seen caller c log.calls)

variable {caller} {serves : ε → ν → Prop}

theorem seen_of_some {calls : List ε} {c : κ} {a : Nat × ν} {e : ε} (he : calls[a.1]? = some e) :
    seen caller c calls a =
      if caller e = c then some (rank caller c calls a.1, a.2) else none := by
  rw [seen, he, Option.bind_some]

theorem remote_append_call (calls : List ε) (e : ε) :
    (remote caller ⟨calls ++ [e], []⟩ : Remote κ ε ν) =
      (remote caller ⟨calls, []⟩).call (caller e) e := by
  refine congrArg₂ Remote.mk ?_ rfl
  funext c
  by_cases hc : c = caller e
  · subst hc
    simp [remote, ownedBy]
  · have hne : caller e ≠ c := fun h => hc h.symm
    simp [remote, ownedBy, hc, hne]

theorem remote_append_answer {calls : List ε} (answers : List (Nat × ν)) {a : Nat × ν} {e : ε}
    (he : calls[a.1]? = some e) :
    remote caller ⟨calls, answers ++ [a]⟩ = (remote caller ⟨calls, answers⟩).answerAll (caller e)
      [(rank caller (caller e) calls a.1, a.2)] := by
  refine congrArg₂ Remote.mk rfl ?_
  funext c
  rw [List.filterMap_append]
  by_cases hc : c = caller e
  · subst hc
    rw [Function.update_self]
    simp [remote, seen_of_some he]
  · have hne : caller e ≠ c := fun h => hc h.symm
    rw [Function.update_of_ne hc]
    simp [remote, seen_of_some he, hne]

theorem reached_calls (calls : List ε) :
    Remote.Reached serves (remote caller ⟨calls, []⟩ : Remote κ ε ν) := by
  induction calls using List.reverseRecOn with
  | nil => exact .refl
  | append_singleton calls e ih =>
    rw [remote_append_call]
    exact ih.tail (.call _ _ e)

/-- Each caller has been answered at most once for each of its calls. -/
theorem Sound.reached {log : Log ε ν} (hlog : log.Sound serves) :
    Remote.Reached serves (remote caller log) := by
  obtain ⟨calls, answers⟩ := log
  induction answers using List.reverseRecOn with
  | nil => exact reached_calls calls
  | append_singleton answers a ih =>
    obtain ⟨honce, hright⟩ := hlog
    simp only [List.map_append, List.map_cons, List.map_nil] at honce hright
    obtain ⟨honce₀, _, hdisjoint⟩ := List.nodup_append.mp honce
    have hright₀ : ∀ a' ∈ answers, ∃ e, calls[a'.1]? = some e ∧ serves e a'.2 :=
      fun a' ha' => hright a' (List.mem_append_left _ ha')
    obtain ⟨e, he, hserves⟩ := hright a (List.mem_append_right _ List.mem_cons_self)
    rw [remote_append_answer answers he]
    refine (ih ⟨honce₀, hright₀⟩).tail (.answer _ _ _ _ e (ownedBy_rank he rfl) ?_ hserves)
    intro hmem
    obtain ⟨b, hb, hrank⟩ := List.mem_map.mp hmem
    obtain ⟨a', ha', hseen⟩ := List.mem_filterMap.mp hb
    obtain ⟨e', he', _⟩ := hright₀ a' ha'
    rw [seen_of_some he'] at hseen
    split at hseen
    · rename_i hcaller
      obtain rfl := Option.some.inj hseen
      have heq := rank_inj he' he hcaller rfl hrank
      exact hdisjoint a'.1 (List.mem_map_of_mem ha') a.1 List.mem_cons_self heq
    · cases hseen

/-- What the answers were handed on as, caller by caller. -/
theorem forall₂_remote {μ : Type*} {log : Log ε ν} {made : List μ} {addressee : μ → κ}
    {R : ε → ν → μ → Prop} (h : List.Forall₂ (fun a m => ∃ e, log.calls[a.1]? = some e ∧
      addressee m = caller e ∧ R e a.2 m) log.answers made) (c : κ) :
    List.Forall₂ (fun a m => ∃ e, ((remote caller log).issued c)[a.1]? = some e ∧ R e a.2 m)
      ((remote caller log).answers c) (ownedBy addressee c made) := by
  rw [ownedBy, ← List.filterMap_eq_filter]
  refine List.rel_filterMap ?_ h
  rintro a m ⟨e, he, haddressee, hR⟩
  rw [seen_of_some he]
  by_cases hc : caller e = c
  · have hm : Option.guard (fun m => decide (addressee m = c)) m = some m := by
      simp [Option.guard, haddressee, hc]
    rw [if_pos hc, hm]
    exact .some ⟨e, ownedBy_rank he hc, hR⟩
  · have hm : Option.guard (fun m => decide (addressee m = c)) m = none := by
      simp [Option.guard, haddressee, hc]
    rw [if_neg hc, hm]
    exact .none

/-- With every call answered, each caller has an answer to each of its calls. -/
theorem answered_all {log : Log ε ν}
    (hall : ∀ n < log.calls.length, n ∈ log.answers.map Prod.fst) {c : κ} {j : Nat}
    (hj : j < ((remote caller log).issued c).length) :
    j ∈ ((remote caller log).answers c).map Prod.fst := by
  obtain ⟨n, hn, hc, hrank⟩ := exists_of_rank (List.getElem?_eq_getElem hj)
  obtain ⟨a, ha, rfl⟩ := List.mem_map.mp (hall n (List.getElem?_eq_some_iff.mp hn).1)
  refine List.mem_map.mpr ⟨(j, a.2), ?_, rfl⟩
  refine List.mem_filterMap.mpr ⟨a, ha, ?_⟩
  rw [seen_of_some hn, if_pos hc, hrank]

end
end Log

/-! ## From lines to callers -/

section
variable {α β π : Type*} [DecidableEq ι]

/-- What each line shows of an interleaving can be put together again. -/
theorem exists_interleaved {R : ι → α → β → Prop} {bs : List (ι × β)} {as : ι → List α}
    (h : ∀ i, List.Forall₂ (R i) (as i) ((ownedBy Prod.fst i bs).map Prod.snd)) :
    ∃ l : List (ι × α), List.Forall₂ (fun a b => a.1 = b.1 ∧ R b.1 a.2 b.2) l bs ∧
      ∀ i, (ownedBy Prod.fst i l).map Prod.snd = as i := by
  induction bs generalizing as with
  | nil =>
    refine ⟨[], .nil, ?_⟩
    intro i
    have hnil : as i = [] := List.forall₂_nil_right_iff.mp (h i)
    rw [hnil]
    rfl
  | cons b bs ih =>
    obtain ⟨i, b⟩ := b
    have hi := h i
    have hcons : ownedBy Prod.fst i ((i, b) :: bs) = (i, b) :: ownedBy Prod.fst i bs := by
      simp [ownedBy]
    rw [hcons, List.map_cons] at hi
    obtain ⟨a, rest, hab, hrest, has⟩ := List.forall₂_cons_right_iff.mp hi
    obtain ⟨l, hl, hshow⟩ := @ih (Function.update as i rest) (by
      intro i'
      by_cases hne : i' = i
      · subst hne
        rw [Function.update_self]
        exact hrest
      · have hskip : ownedBy Prod.fst i' ((i, b) :: bs) = ownedBy Prod.fst i' bs := by
          simp [ownedBy, Ne.symm hne]
        have hi' := h i'
        rw [hskip] at hi'
        rw [Function.update_of_ne hne]
        exact hi')
    refine ⟨(i, a) :: l, .cons ⟨rfl, hab⟩ hl, ?_⟩
    intro i'
    by_cases hne : i' = i
    · subst hne
      have h' := hshow i'
      rw [Function.update_self] at h'
      simp [ownedBy] at h' ⊢
      rw [h', has]
    · have h' := hshow i'
      rw [Function.update_of_ne hne] at h'
      simp [ownedBy, Ne.symm hne] at h' ⊢
      exact h'

theorem exists_forall₂ {R : α → β → Prop} {bs : List β} (h : ∀ b ∈ bs, ∃ a, R a b) :
    ∃ as, List.Forall₂ R as bs := by
  induction bs with
  | nil => exact ⟨[], .nil⟩
  | cons b bs ih =>
    obtain ⟨a, ha⟩ := h b List.mem_cons_self
    obtain ⟨as, has⟩ := ih fun b' hb' => h b' (List.mem_cons_of_mem _ hb')
    exact ⟨a :: as, .cons ha has⟩

theorem exists_left {R : α → β → Prop} {as : List α} {bs : List β} (h : List.Forall₂ R as bs)
    {b : β} (hb : b ∈ bs) : ∃ a ∈ as, R a b := by
  induction h with
  | nil => cases hb
  | @cons a b' as bs ha _ ih =>
    rcases List.mem_cons.mp hb with rfl | hb
    · exact ⟨a, List.mem_cons_self, ha⟩
    · obtain ⟨a', ha', hR⟩ := ih hb
      exact ⟨a', List.mem_cons_of_mem _ ha', hR⟩

theorem forall₂_comp {R : α → π → Prop} {S : π → β → Prop} {as : List α} {cs : List π}
    {bs : List β} (hR : List.Forall₂ R as cs) (hS : List.Forall₂ S cs bs) :
    List.Forall₂ (fun a b => ∃ c, R a c ∧ S c b) as bs := by
  induction hR generalizing bs with
  | nil =>
    cases hS
    exact .nil
  | cons ha _ ih =>
    cases hS with
    | cons hb hS => exact .cons ⟨_, ha, hb⟩ (ih hS)

/-- Entries that differ on every line differ. -/
theorem nodup_of_lines {l : List (ι × Nat × ν)}
    (h : ∀ i, (((ownedBy Prod.fst i l).map Prod.snd).map Prod.fst).Nodup) :
    (l.map fun c => (c.1, c.2.1)).Nodup := by
  induction l with
  | nil => exact List.nodup_nil
  | cons c l ih =>
    have hrest : ∀ i, (((ownedBy Prod.fst i l).map Prod.snd).map Prod.fst).Nodup := by
      intro i
      have hi := h i
      by_cases hc : c.1 = i
      · have hcons : ownedBy Prod.fst i (c :: l) = c :: ownedBy Prod.fst i l := by
          simp [ownedBy, hc]
        rw [hcons] at hi
        exact (List.nodup_cons.mp hi).2
      · have hskip : ownedBy Prod.fst i (c :: l) = ownedBy Prod.fst i l := by simp [ownedBy, hc]
        rwa [hskip] at hi
    rw [List.map_cons, List.nodup_cons]
    refine ⟨?_, ih hrest⟩
    intro hmem
    obtain ⟨c', hc', heq⟩ := List.mem_map.mp hmem
    obtain ⟨hline, hnumber⟩ := Prod.mk.inj heq
    have hcons : ownedBy Prod.fst c.1 (c :: l) = c :: ownedBy Prod.fst c.1 l := by simp [ownedBy]
    have hi := h c.1
    rw [hcons, List.map_cons, List.map_cons, List.nodup_cons] at hi
    apply hi.1
    rw [← hnumber]
    exact List.mem_map_of_mem (List.mem_map_of_mem (mem_ownedBy.mpr ⟨hc', hline⟩))

/-- Sound lines that carry the calls of a list, and the answers as they came on them: together they
are a sound log of those calls, complete if the lines are. `M` is what an answer was handed on
as. -/
theorem exists_log {serves : ε → ν → Prop} {r : Remote ι ε ν} (hr : r.Sound serves)
    {line : π → ι} {call : π → ε} {posts : List π}
    (hposts : ∀ i, r.issued i = (ownedBy line i posts).map call) {M : ι → Nat × ν → β → Prop}
    {made : List (ι × β)}
    (hmade : ∀ i, List.Forall₂ (M i) (r.answers i) ((ownedBy Prod.fst i made).map Prod.snd)) :
    ∃ answers : List (Nat × ν), Log.Sound (fun p => serves (call p)) ⟨posts, answers⟩ ∧
      List.Forall₂ (fun a b => ∃ p, posts[a.1]? = some p ∧ line p = b.1 ∧
        M b.1 (rank line b.1 posts a.1, a.2) b.2) answers made ∧
      ((∀ i, ∀ j < (r.issued i).length, j ∈ (r.answers i).map Prod.fst) →
        ∀ n < posts.length, n ∈ answers.map Prod.fst) := by
  obtain ⟨came, hcame, hshow⟩ := exists_interleaved hmade
  obtain ⟨answers, hanswers⟩ : ∃ answers, List.Forall₂ (fun (a : Nat × ν) (c : ι × Nat × ν) =>
      a.2 = c.2.2 ∧ ∃ p, posts[a.1]? = some p ∧ line p = c.1 ∧ rank line c.1 posts a.1 = c.2.1 ∧
        serves (call p) a.2) answers came := by
    apply exists_forall₂
    intro c hc
    have hanswer : c.2 ∈ r.answers c.1 := by
      rw [← hshow]
      exact List.mem_map_of_mem (mem_ownedBy.mpr ⟨hc, rfl⟩)
    obtain ⟨e, he, hserves⟩ := hr.right c.1 c.2.1 c.2.2 hanswer
    rw [hposts, List.getElem?_map, Option.map_eq_some_iff] at he
    obtain ⟨p, hp, rfl⟩ := he
    obtain ⟨j, hj, hline, hrank⟩ := exists_of_rank hp
    exact ⟨(j, c.2.2), rfl, p, hj, hline, hrank, hserves⟩
  refine ⟨answers, ⟨?_, ?_⟩, ?_, ?_⟩
  · -- the number of a call determines its line and its number there
    let place (n : Nat) : Option (ι × Nat) :=
      posts[n]?.map fun p => (line p, rank line (line p) posts n)
    have hplaces : (answers.map Prod.fst).map place =
        (came.map fun c => (c.1, c.2.1)).map some := by
      rw [List.map_map, List.map_map, ← List.forall₂_eq_eq_eq, List.forall₂_map_left_iff,
        List.forall₂_map_right_iff]
      apply hanswers.imp
      rintro a c ⟨_, p, hp, hline, hrank, _⟩
      simp [place, hp, hline, hrank]
    have honce := nodup_of_lines (l := came) fun i => by
      rw [hshow]
      exact hr.once i
    apply List.Nodup.of_map place
    rw [hplaces]
    exact honce.map (Option.some_injective _)
  · have hall : List.Forall₂ (fun (a : Nat × ν) (_ : ι × Nat × ν) =>
        (∃ p, posts[a.1]? = some p ∧ serves (call p) a.2) ∧ True) answers came := by
      apply hanswers.imp
      rintro a c ⟨_, p, hp, _, _, hserves⟩
      exact ⟨⟨p, hp, hserves⟩, trivial⟩
    exact ((List.forall₂_and_left _ _).mp hall).1
  · apply (forall₂_comp hanswers hcame).imp
    rintro a b ⟨c, ⟨hvalue, p, hp, hline, hrank, _⟩, hb, hM⟩
    rw [hb] at hline hrank
    refine ⟨p, hp, hline, ?_⟩
    rw [hrank, hvalue]
    exact hM
  · intro hall n hn
    have hp : posts[n]? = some posts[n] := List.getElem?_eq_getElem hn
    have hmem : rank line (line posts[n]) posts n ∈
        (r.answers (line posts[n])).map Prod.fst := by
      apply hall
      rw [hposts, List.length_map]
      exact rank_lt_length hp rfl
    obtain ⟨b, hb, hrank⟩ := List.mem_map.mp hmem
    rw [← hshow] at hb
    obtain ⟨c, hc, rfl⟩ := List.mem_map.mp hb
    obtain ⟨hc, hline⟩ := mem_ownedBy.mp hc
    obtain ⟨a, ha, _, p', hp', hline', hrank', _⟩ := exists_left hanswers hc
    rw [hline] at hline' hrank'
    have heq := rank_inj hp' hp hline' rfl (hrank'.trans hrank)
    rw [← heq]
    exact List.mem_map_of_mem ha

end

end Streaming
