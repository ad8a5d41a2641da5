import Mathlib.Logic.Function.Basic
import Mathlib.Data.List.Basic

/-!
# Outstanding calls

Calls are issued one after the other and served in any order. A table that is
updated with every call and erased with every answer finds the open call of a
key, as long as no two open calls share one.
-/

namespace Streaming
set_option autoImplicit false

universe u v w
variable {ε : Type u} {ι : Type v} {τ : Type w}

structure Ledger (ε : Type u) where
  issued : List ε
  served : List Nat

namespace Ledger

def Open (l : Ledger ε) (j : Nat) (e : ε) : Prop := l.issued[j]? = some e ∧ j ∉ l.served

def issue (l : Ledger ε) (e : ε) : Ledger ε := ⟨l.issued ++ [e], l.served⟩

def serve (l : Ledger ε) (j : Nat) : Ledger ε := ⟨l.issued, l.served ++ [j]⟩

/-- Only issued calls are served, and open calls have different keys. -/
structure Wf (key : ε → ι) (l : Ledger ε) : Prop where
  served_lt : ∀ j ∈ l.served, j < l.issued.length
  distinct : ∀ j e j' e', l.Open j e → l.Open j' e' → key e = key e' → j = j'

def Fresh (key : ε → ι) (l : Ledger ε) (e : ε) : Prop := ∀ j e', l.Open j e' → key e' ≠ key e

/-- The table holds the values of the open calls under their keys, and nothing else. -/
def Finds (key : ε → ι) (val : ε → τ) (l : Ledger ε) (t : ι → Option τ) : Prop :=
  ∀ i v, t i = some v ↔ ∃ j e, l.Open j e ∧ key e = i ∧ val e = v

variable {key : ε → ι} {val : ε → τ} {l : Ledger ε} {j : Nat} {e : ε} {t : ι → Option τ}

theorem wf_empty (key : ε → ι) : Wf key ⟨[], []⟩ := ⟨by simp, by simp [Open]⟩

theorem finds_empty (key : ε → ι) (val : ε → τ) : Finds key val ⟨[], []⟩ fun _ => none := by
  simp [Finds, Open]

theorem open_issue_iff (hl : Wf key l) {e' : ε} :
    (l.issue e).Open j e' ↔ l.Open j e' ∨ j = l.issued.length ∧ e' = e := by
  unfold Open issue
  constructor
  · intro hopen
    obtain ⟨hget, hserved⟩ := hopen
    rcases Nat.lt_or_ge j l.issued.length with hlt | hge
    · rw [List.getElem?_append_left hlt] at hget
      exact Or.inl ⟨hget, hserved⟩
    · obtain ⟨hlt, _⟩ := List.getElem?_eq_some_iff.mp hget
      rw [List.length_append, List.length_singleton] at hlt
      obtain rfl : j = l.issued.length := by omega
      exact Or.inr ⟨rfl, by simpa using hget.symm⟩
  · intro hopen
    rcases hopen with ⟨hget, hserved⟩ | ⟨rfl, rfl⟩
    · obtain ⟨hlt, _⟩ := List.getElem?_eq_some_iff.mp hget
      exact ⟨(List.getElem?_append_left hlt).trans hget, hserved⟩
    · exact ⟨by simp, fun h => Nat.lt_irrefl _ (hl.served_lt _ h)⟩

theorem open_serve_iff {i : Nat} {e' : ε} : (l.serve j).Open i e' ↔ l.Open i e' ∧ i ≠ j := by
  simp [Open, serve, and_assoc]

theorem Wf.issue (hl : Wf key l) (hfresh : Fresh key l e) : Wf key (l.issue e) := by
  constructor
  · intro i hi
    have := hl.served_lt i hi
    simp only [Ledger.issue, List.length_append, List.length_singleton]
    omega
  · intro i d i' d' hd hd' hkey
    rcases (open_issue_iff hl).mp hd with hold | ⟨rfl, rfl⟩ <;>
      rcases (open_issue_iff hl).mp hd' with hold' | ⟨rfl, rfl⟩
    · exact hl.distinct i d i' d' hold hold' hkey
    · exact absurd hkey (hfresh i d hold)
    · exact absurd hkey.symm (hfresh i' d' hold')
    · rfl

theorem Wf.serve (hl : Wf key l) (hj : l.Open j e) : Wf key (l.serve j) := by
  constructor
  · intro i hi
    rcases List.mem_append.mp hi with hi | hi
    · exact hl.served_lt i hi
    · rw [List.mem_singleton.mp hi]
      exact (List.getElem?_eq_some_iff.mp hj.1).1
  · intro i d i' d' hd hd' hkey
    exact hl.distinct i d i' d' (open_serve_iff.mp hd).1 (open_serve_iff.mp hd').1 hkey

theorem Finds.get (ht : Finds key val l t) (hj : l.Open j e) : t (key e) = some (val e) :=
  (ht _ _).mpr ⟨j, e, hj, rfl, rfl⟩

theorem Finds.isSome_iff (ht : Finds key val l t) (i : ι) :
    (t i).isSome ↔ ∃ j e, l.Open j e ∧ key e = i := by
  rw [Option.isSome_iff_exists]
  constructor
  · intro hsome
    obtain ⟨v, hv⟩ := hsome
    obtain ⟨j, e, hj, hkey, _⟩ := (ht i v).mp hv
    exact ⟨j, e, hj, hkey⟩
  · intro hopen
    obtain ⟨j, e, hj, rfl⟩ := hopen
    exact ⟨val e, ht.get hj⟩

variable [DecidableEq ι]

theorem Finds.issue (hl : Wf key l) (ht : Finds key val l t) (hfresh : Fresh key l e) :
    Finds key val (l.issue e) (Function.update t (key e) (some (val e))) := by
  intro i v
  by_cases hi : i = key e
  · subst hi
    rw [Function.update_self]
    constructor
    · intro hv
      exact ⟨_, e, (open_issue_iff hl).mpr (Or.inr ⟨rfl, rfl⟩), rfl, Option.some.inj hv⟩
    · intro hopen
      obtain ⟨i, d, hd, hkey, rfl⟩ := hopen
      rcases (open_issue_iff hl).mp hd with hd | ⟨_, rfl⟩
      · exact absurd hkey (hfresh i d hd)
      · rfl
  · rw [Function.update_of_ne hi, ht i v]
    constructor
    · intro hopen
      obtain ⟨i', d, hd, hrest⟩ := hopen
      exact ⟨i', d, (open_issue_iff hl).mpr (Or.inl hd), hrest⟩
    · intro hopen
      obtain ⟨i', d, hd, hkey, hval⟩ := hopen
      rcases (open_issue_iff hl).mp hd with hd | ⟨_, rfl⟩
      · exact ⟨i', d, hd, hkey, hval⟩
      · exact absurd hkey.symm hi

theorem Finds.serve (hl : Wf key l) (ht : Finds key val l t) (hj : l.Open j e) :
    Finds key val (l.serve j) (Function.update t (key e) none) := by
  intro i v
  by_cases hi : i = key e
  · subst hi
    rw [Function.update_self]
    constructor
    · intro hv
      cases hv
    · intro hopen
      obtain ⟨i, d, hd, hkey, rfl⟩ := hopen
      obtain ⟨hd, hne⟩ := open_serve_iff.mp hd
      exact absurd (hl.distinct i d j e hd hj hkey) hne
  · rw [Function.update_of_ne hi, ht i v]
    constructor
    · intro hopen
      obtain ⟨i', d, hd, rfl, hval⟩ := hopen
      refine ⟨i', d, open_serve_iff.mpr ⟨hd, ?_⟩, rfl, hval⟩
      intro hkey
      subst hkey
      exact hi (congrArg key (Option.some.inj (hd.1.symm.trans hj.1)))
    · intro hopen
      obtain ⟨i', d, hd, hrest⟩ := hopen
      exact ⟨i', d, (open_serve_iff.mp hd).1, hrest⟩

end Ledger
end Streaming
