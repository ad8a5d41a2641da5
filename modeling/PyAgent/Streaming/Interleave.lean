import Mathlib.Data.List.Basic
import Mathlib.Data.List.TakeDrop
import Mathlib.Data.List.Nodup

/-!
# Interleaved lists

A list of entries, each of which belongs to somebody: what one of them sees of it,
and where an entry stands among those of its owner.
-/

namespace Streaming
set_option autoImplicit false

universe u v
variable {α : Type u} {ι : Type v} [DecidableEq ι] (owner : α → ι)

/-- The entries of one owner, in order. -/
def ownedBy (i : ι) (l : List α) : List α := l.filter fun a => owner a = i

/-- How many entries of that owner come before position `j`. -/
def rank (i : ι) (l : List α) (j : Nat) : Nat := (ownedBy owner i (l.take j)).length

variable {owner} {i : ι} {l : List α} {a : α} {j j' : Nat}

@[simp] theorem ownedBy_nil : ownedBy owner i [] = [] := rfl

@[simp] theorem ownedBy_append (l l' : List α) :
    ownedBy owner i (l ++ l') = ownedBy owner i l ++ ownedBy owner i l' :=
  List.filter_append l l'

theorem ownedBy_eq_self (h : ∀ a ∈ l, owner a = i) : ownedBy owner i l = l := by
  apply List.filter_eq_self.mpr
  intro a ha
  exact decide_eq_true (h a ha)

theorem ownedBy_eq_nil (h : ∀ a ∈ l, owner a ≠ i) : ownedBy owner i l = [] := by
  apply List.filter_eq_nil_iff.mpr
  intro a ha
  simpa using h a ha

/-- Entries that all have the same owner. -/
theorem ownedBy_tagged {β : Type*} (i i' : ι) (l : List β) :
    (ownedBy Prod.fst i' (l.map fun b => (i, b))).map Prod.snd = if i = i' then l else [] := by
  by_cases hi : i = i'
  · subst hi
    rw [ownedBy_eq_self (by simp), List.map_map, if_pos rfl]
    simp [Function.comp_def]
  · have hne : ∀ a ∈ l.map fun b => (i, b), a.1 ≠ i' := by
      intro a ha
      obtain ⟨_, _, rfl⟩ := List.mem_map.mp ha
      exact hi
    rw [ownedBy_eq_nil hne, if_neg hi, List.map_nil]

theorem mem_ownedBy : a ∈ ownedBy owner i l ↔ a ∈ l ∧ owner a = i := by
  simp [ownedBy]

theorem ownedBy_map {β : Type*} (f : β → α) (l : List β) :
    ownedBy owner i (l.map f) = (ownedBy (fun b => owner (f b)) i l).map f := by
  rw [ownedBy, List.filter_map]
  rfl

/-- With one entry an owner at most. -/
theorem ownedBy_eq_singleton (hnodup : (l.map owner).Nodup) (ha : a ∈ l) (howner : owner a = i) :
    ownedBy owner i l = [a] := by
  have hall : ∀ b ∈ ownedBy owner i l, b = a := by
    intro b hb
    obtain ⟨hb, hi⟩ := mem_ownedBy.mp hb
    exact List.inj_on_of_nodup_map hnodup hb ha (hi.trans howner.symm)
  have hnodup' : (ownedBy owner i l).Nodup := (List.Nodup.of_map owner hnodup).filter _
  exact List.perm_singleton.mp ((List.perm_ext_iff_of_nodup hnodup' (List.nodup_singleton a)).mpr
    fun b => ⟨fun hb => List.mem_singleton.mpr (hall b hb), fun hb => by
      rw [List.mem_singleton.mp hb]
      exact mem_ownedBy.mpr ⟨ha, howner⟩⟩)

theorem rank_append (hj : j ≤ l.length) (l' : List α) :
    rank owner i (l ++ l') j = rank owner i l j := by
  rw [rank, List.take_append_of_le_length hj, rank]

theorem rank_length (i : ι) (l : List α) :
    rank owner i l l.length = (ownedBy owner i l).length := by
  rw [rank, List.take_length]

theorem ownedBy_eq_append (hl : l[j]? = some a) (howner : owner a = i) :
    ownedBy owner i l =
      ownedBy owner i (l.take j) ++ a :: ownedBy owner i (l.drop (j + 1)) := by
  obtain ⟨hlt, rfl⟩ := List.getElem?_eq_some_iff.mp hl
  have hsplit : l = l.take j ++ l[j] :: l.drop (j + 1) := by
    rw [List.getElem_cons_drop, List.take_append_drop]
  have hcons : ownedBy owner i (l[j] :: l.drop (j + 1)) =
      l[j] :: ownedBy owner i (l.drop (j + 1)) :=
    List.filter_cons_of_pos (decide_eq_true howner)
  rw [← hcons, ← ownedBy_append, ← hsplit]

/-- The entry at `j` stands at its rank among those of its owner. -/
theorem ownedBy_rank (hl : l[j]? = some a) (howner : owner a = i) :
    (ownedBy owner i l)[rank owner i l j]? = some a := by
  rw [ownedBy_eq_append hl howner, rank, List.getElem?_append_right (Nat.le_refl _), Nat.sub_self]
  rfl

theorem rank_lt (hl : l[j]? = some a) (howner : owner a = i) (hlt : j < j') :
    rank owner i l j < rank owner i l j' := by
  have htake : (l.take j')[j]? = some a := by
    rw [List.getElem?_take_of_lt hlt]
    exact hl
  have hlen := congrArg List.length (ownedBy_eq_append htake howner)
  rw [List.take_take, Nat.min_eq_left (Nat.le_of_lt hlt), List.length_append,
    List.length_cons] at hlen
  unfold rank
  omega

theorem rank_lt_length (hl : l[j]? = some a) (howner : owner a = i) :
    rank owner i l j < (ownedBy owner i l).length := by
  rw [← rank_length]
  exact rank_lt hl howner (List.getElem?_eq_some_iff.mp hl).1

theorem rank_inj {a' : α} (hl : l[j]? = some a) (hl' : l[j']? = some a') (howner : owner a = i)
    (howner' : owner a' = i) (h : rank owner i l j = rank owner i l j') : j = j' := by
  rcases Nat.lt_trichotomy j j' with hlt | heq | hgt
  · exact absurd h (Nat.ne_of_lt (rank_lt hl howner hlt))
  · exact heq
  · exact absurd h.symm (Nat.ne_of_lt (rank_lt hl' howner' hgt))

/-- Every entry an owner sees is one of the list. -/
theorem exists_of_rank {n : Nat} (h : (ownedBy owner i l)[n]? = some a) :
    ∃ j, l[j]? = some a ∧ owner a = i ∧ rank owner i l j = n := by
  have howner : owner a = i := (mem_ownedBy.mp (List.mem_of_getElem? h)).2
  induction l generalizing n with
  | nil => cases h
  | cons b l ih =>
    by_cases hb : owner b = i
    · have hcons : ownedBy owner i (b :: l) = b :: ownedBy owner i l := by simp [ownedBy, hb]
      rw [hcons] at h
      cases n with
      | zero =>
        obtain rfl : b = a := Option.some.inj h
        exact ⟨0, rfl, hb, rfl⟩
      | succ n =>
        obtain ⟨j, hj, _, hrank⟩ := ih h
        refine ⟨j + 1, hj, howner, ?_⟩
        rw [rank] at hrank ⊢
        simp [ownedBy, hb] at hrank ⊢
        exact hrank
    · have hcons : ownedBy owner i (b :: l) = ownedBy owner i l := by simp [ownedBy, hb]
      rw [hcons] at h
      obtain ⟨j, hj, _, hrank⟩ := ih h
      refine ⟨j + 1, hj, howner, ?_⟩
      rw [rank] at hrank ⊢
      simp [ownedBy, hb] at hrank ⊢
      exact hrank

end Streaming
