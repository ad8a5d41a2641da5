import PyAgent.Machine
import Mathlib.Logic.Function.Basic
import Mathlib.Logic.Relation
import Mathlib.Data.List.Nodup
import Mathlib.Data.List.Perm.Basic

/-!
# The block pool

x_malloc and x_free of bytebuf.cc over the two maps of `x_mem_pool`, together with
the C library's heap. Blocks of the pool also leave it through plain `free`
(dubbo_client.cc), which tells neither map.
-/

namespace PyAgent
set_option autoImplicit false

/-- `ptr_pool` lists (size, pointer) in the order of the multimap. -/
structure XMemPool where
  ptrPool : List (Nat × Nat)
  ptrSizeMap : Nat → Option Nat

def defaultXMemPool : XMemPool := ⟨[], fun _ => none⟩

/-- `multimap::insert`: behind the entries whose key is not greater. -/
def multimapInsert (e : Nat × Nat) : List (Nat × Nat) → List (Nat × Nat)
  | [] => [e]
  | d :: ds => if d.1 ≤ e.1 then d :: multimapInsert e ds else e :: d :: ds

/-- What `x_malloc` leaves behind and returns; `malloced` is the size it asked `malloc` for. -/
structure Grant where
  pool : XMemPool
  res : Nat
  malloced : Option Nat

def xMallocMiss (p : XMemPool) (size sys : Nat) : Grant :=
  let size' := if size < 32 then 32 else if size < 66 then 66 else size
  ⟨{ p with ptrSizeMap := Function.update p.ptrSizeMap sys (some size') }, sys, some size'⟩

def xMalloc (p : XMemPool) (size sys : Nat) : Grant :=
  -- lower_bound: the first entry whose key is not less than size
  match p.ptrPool.find? (fun e => size ≤ e.1) with
  | some e =>
    if e.1 ≤ toSizeT (2 * size) ∨ e.1 ≤ 66 then
      ⟨{ p with ptrPool := p.ptrPool.erase e }, e.2, none⟩
    else xMallocMiss p size sys
  | none => xMallocMiss p size sys

/-- `x_free`; the flag says that the pointer was unknown and went to `free`. -/
def xFree (p : XMemPool) (ptr : Nat) : XMemPool × Bool :=
  match p.ptrSizeMap ptr with
  | some size => ({ p with ptrPool := multimapInsert (size, ptr) p.ptrPool }, false)
  | none => (p, true)

theorem recycled_or_sys (p : XMemPool) (size sys : Nat) :
    (xMalloc p size sys).malloced = none ∨ (xMalloc p size sys).res = sys := by
  unfold xMalloc
  split
  · split
    · exact Or.inl rfl
    · exact Or.inr rfl
  · exact Or.inr rfl

theorem mem_multimapInsert {d e : Nat × Nat} {ds : List (Nat × Nat)} :
    d ∈ multimapInsert e ds ↔ d = e ∨ d ∈ ds := by
  induction ds with
  | nil => simp [multimapInsert]
  | cons a ds ih =>
    unfold multimapInsert
    split
    · simp only [List.mem_cons, ih]
      exact or_left_comm
    · simp

theorem multimapInsert_perm (e : Nat × Nat) (ds : List (Nat × Nat)) :
    (multimapInsert e ds).Perm (e :: ds) := by
  induction ds with
  | nil => exact .refl _
  | cons a ds ih =>
    unfold multimapInsert
    split
    · exact (ih.cons a).trans (.swap e a ds)
    · exact .refl _

namespace XMem

/-- The process heap: the pool, the real capacity of every block the C library has given out, and
the blocks `x_malloc` has handed out that are not released yet. -/
structure Heap where
  pool : XMemPool
  capacity : Nat → Option Nat
  handed : List Nat

def start : Heap := ⟨defaultXMemPool, fun _ => none, []⟩

inductive Event where
  | xMalloc (n sys : Nat)
  | xFree (p : Nat)
  | free (p : Nat)

def step (h : Heap) : Event → Option Heap
  | .xMalloc n sys =>
    if n < 9223372036854775808 ∧ h.capacity sys = none then
      let g := PyAgent.xMalloc h.pool n sys
      some ⟨g.pool, if g.malloced.isSome then Function.update h.capacity sys g.malloced
        else h.capacity, g.res :: h.handed⟩
    else none
  | .xFree p =>
    if p ∈ h.handed then
      let r := PyAgent.xFree h.pool p
      some ⟨r.1, if r.2 then Function.update h.capacity p none else h.capacity, h.handed.erase p⟩
    else none
  | .free p =>
    if p ∈ h.handed then
      some ⟨h.pool, Function.update h.capacity p none, h.handed.erase p⟩
    else none

def Reached : Heap → Prop :=
  Relation.ReflTransGen (fun h h' => ∃ e, step h e = some h') start

/-- Pooled and handed out blocks are all different, and for both kinds the size map knows the real
capacity. Entries of other addresses may be stale. -/
structure Inv (h : Heap) : Prop where
  nodup : (h.pool.ptrPool.map Prod.snd ++ h.handed).Nodup
  pooled : ∀ e ∈ h.pool.ptrPool, h.pool.ptrSizeMap e.2 = some e.1 ∧ h.capacity e.2 = some e.1
  out : ∀ p ∈ h.handed, ∃ c, h.pool.ptrSizeMap p = some c ∧ h.capacity p = some c

theorem inv_start : Inv start := ⟨by simp [start, defaultXMemPool],
  by simp [start, defaultXMemPool], by simp [start]⟩

section
variable {h : Heap} (hh : Inv h)
include hh

theorem Inv.handed_nodup : h.handed.Nodup := (List.nodup_append.mp hh.nodup).2.1

theorem Inv.not_handed {e : Nat × Nat} (he : e ∈ h.pool.ptrPool) : e.2 ∉ h.handed := by
  intro hmem
  exact (List.nodup_append.mp hh.nodup).2.2 e.2 (List.mem_map_of_mem he) e.2 hmem rfl

theorem Inv.fresh {sys : Nat} (hsys : h.capacity sys = none) :
    sys ∉ h.pool.ptrPool.map Prod.snd ∧ sys ∉ h.handed := by
  constructor
  · intro hmem
    obtain ⟨e, he, rfl⟩ := List.mem_map.mp hmem
    have := (hh.pooled e he).2
    rw [hsys] at this
    cases this
  · intro hmem
    obtain ⟨c, _, hc⟩ := hh.out sys hmem
    rw [hsys] at hc
    cases hc

theorem Inv.erase_handed {p : Nat} {capacity : Nat → Option Nat} {pool : XMemPool}
    (hp : p ∈ h.handed) (hmap : pool.ptrSizeMap = h.pool.ptrSizeMap)
    (hcap : ∀ q, q ≠ p → capacity q = h.capacity q)
    (hperm : (pool.ptrPool.map Prod.snd ++ h.handed.erase p).Nodup)
    (hpool : ∀ e ∈ pool.ptrPool, e.2 ≠ p → e ∈ h.pool.ptrPool)
    (hself : ∀ e ∈ pool.ptrPool, e.2 = p → h.pool.ptrSizeMap p = some e.1 ∧ capacity p = some e.1) :
    Inv ⟨pool, capacity, h.handed.erase p⟩ := by
  refine ⟨hperm, ?_, ?_⟩
  · intro e he
    simp only [hmap]
    by_cases hep : e.2 = p
    · rw [hep]
      exact hself e he hep
    · rw [hcap _ hep]
      exact hh.pooled e (hpool e he hep)
  · intro q hq
    have hne : q ≠ p := by
      intro heq
      subst heq
      exact hh.handed_nodup.not_mem_erase hq
    obtain ⟨c, hc⟩ := hh.out q (List.mem_of_mem_erase hq)
    exact ⟨c, by rw [hmap]; exact hc.1, (hcap q hne).trans hc.2⟩

/-- A block that may be handed out for a request of `n` bytes, and what handing it out leaves. -/
def Grants (h : Heap) (n sys : Nat) (g : Grant) : Prop :=
  let capacity :=
    if g.malloced.isSome then Function.update h.capacity sys g.malloced else h.capacity
  Inv ⟨g.pool, capacity, g.res :: h.handed⟩ ∧ g.res ∉ h.handed ∧
    ∃ c, capacity g.res = some c ∧ n ≤ c ∧ (g.malloced = none → c ≤ max (2 * n) 66)

theorem Inv.grants_miss (n : Nat) {sys : Nat} (hsys : h.capacity sys = none) :
    Grants h n sys (xMallocMiss h.pool n sys) := by
  obtain ⟨hnp, hnh⟩ := hh.fresh hsys
  simp only [Grants, xMallocMiss, Option.isSome_some, if_true]
  refine ⟨⟨?_, ?_, ?_⟩, hnh, _, Function.update_self _ _ _, ?_, by simp⟩
  · exact (List.perm_middle.nodup_iff).mpr (List.nodup_cons.mpr
      ⟨by simpa using ⟨by simpa using hnp, hnh⟩, hh.nodup⟩)
  · intro e he
    have hne : e.2 ≠ sys := fun heq => hnp (heq ▸ List.mem_map_of_mem he)
    simp only [Function.update_of_ne hne]
    exact hh.pooled e he
  · intro p hp
    rcases List.mem_cons.mp hp with rfl | hp
    · exact ⟨_, Function.update_self _ _ _, Function.update_self _ _ _⟩
    · have hne : p ≠ sys := fun heq => hnh (heq ▸ hp)
      simp only [Function.update_of_ne hne]
      exact hh.out p hp
  · split
    · omega
    · split <;> omega

theorem Inv.grants_hit {n sys : Nat} {e : Nat × Nat} (he : e ∈ h.pool.ptrPool) (hle : n ≤ e.1)
    (hfit : e.1 ≤ 2 * n ∨ e.1 ≤ 66) :
    Grants h n sys ⟨{ h.pool with ptrPool := h.pool.ptrPool.erase e }, e.2, none⟩ := by
  have hsize := hh.pooled e he
  have hperm : (h.pool.ptrPool.map Prod.snd ++ h.handed).Perm
      ((h.pool.ptrPool.erase e).map Prod.snd ++ e.2 :: h.handed) := by
    refine ((List.perm_cons_erase he).map Prod.snd).append_right h.handed |>.trans ?_
    exact List.perm_middle.symm
  refine ⟨⟨hperm.nodup_iff.mp hh.nodup, ?_, ?_⟩, hh.not_handed he, e.1, hsize.2, hle, ?_⟩
  · intro d hd
    exact hh.pooled d (List.mem_of_mem_erase hd)
  · intro p hp
    rcases List.mem_cons.mp hp with rfl | hp
    · exact ⟨e.1, hsize⟩
    · exact hh.out p hp
  · intro _
    omega

theorem Inv.xMalloc_spec {n sys : Nat} (hn : n < 9223372036854775808)
    (hsys : h.capacity sys = none) : Grants h n sys (PyAgent.xMalloc h.pool n sys) := by
  unfold PyAgent.xMalloc
  split
  · rename_i e hfind
    split
    · rename_i hfit
      apply hh.grants_hit (List.mem_of_find?_eq_some hfind)
      · simpa using List.find?_some hfind
      · unfold toSizeT at hfit
        omega
    · exact hh.grants_miss n hsys
  · exact hh.grants_miss n hsys

theorem Inv.xFree {p : Nat} {h' : Heap} (hstep : step h (.xFree p) = some h') : Inv h' := by
  simp only [step] at hstep
  split at hstep
  · rename_i hp
    obtain ⟨c, hmap, hcap⟩ := hh.out p hp
    rw [← Option.some.inj hstep]
    simp only [PyAgent.xFree, hmap]
    have hperm : (h.pool.ptrPool.map Prod.snd ++ h.handed).Perm
        ((multimapInsert (c, p) h.pool.ptrPool).map Prod.snd ++ h.handed.erase p) := by
      refine ((List.perm_cons_erase hp).append_left _).trans ?_
      refine List.perm_middle.trans ?_
      exact (((multimapInsert_perm (c, p) h.pool.ptrPool).map Prod.snd).append_right _).symm
    refine hh.erase_handed hp rfl (fun _ _ => rfl) (hperm.nodup_iff.mp hh.nodup) ?_ ?_
    · intro e he hne
      rcases mem_multimapInsert.mp he with rfl | he
      · exact absurd rfl hne
      · exact he
    · intro e he hep
      rcases mem_multimapInsert.mp he with rfl | he
      · exact ⟨hmap, hcap⟩
      · exact absurd (hep ▸ hp) (hh.not_handed he)
  · cases hstep

theorem Inv.free {p : Nat} {h' : Heap} (hstep : step h (.free p) = some h') : Inv h' := by
  simp only [step] at hstep
  split at hstep
  · rename_i hp
    rw [← Option.some.inj hstep]
    have hsub := (List.erase_sublist (a := p) (l := h.handed)).append_left
      (h.pool.ptrPool.map Prod.snd)
    refine hh.erase_handed hp rfl (fun q hq => Function.update_of_ne hq _ _)
      (hh.nodup.sublist hsub) (fun _ he _ => he) ?_
    intro e he hep
    exact absurd (hep ▸ hp) (hh.not_handed he)
  · cases hstep

end

theorem inv_of_reached {h : Heap} (hr : Reached h) : Inv h := by
  induction hr with
  | refl => exact inv_start
  | @tail h _ _ hstep ih =>
    obtain ⟨e, he⟩ := hstep
    cases e with
    | xMalloc n sys =>
      by_cases hguard : n < 9223372036854775808 ∧ h.capacity sys = none
      · rw [step, if_pos hguard, Option.some.injEq] at he
        subst he
        exact (ih.xMalloc_spec hguard.1 hguard.2).1
      · rw [step, if_neg hguard] at he
        cases he
    | xFree p => exact ih.xFree he
    | free p => exact ih.free he

/-- The pool's book-keeping is right, and so is the next block `x_malloc` gives out. -/
structure Consistent (h : Heap) : Prop where
  distinct : (h.pool.ptrPool.map Prod.snd).Nodup
  not_handed : ∀ e ∈ h.pool.ptrPool, e.2 ∉ h.handed
  real_size : ∀ e ∈ h.pool.ptrPool,
    h.pool.ptrSizeMap e.2 = some e.1 ∧ h.capacity e.2 = some e.1
  next_block : ∀ n sys, n < 9223372036854775808 → h.capacity sys = none →
    ∃ h' p c, step h (.xMalloc n sys) = some h' ∧ h'.handed = p :: h.handed ∧ p ∉ h.handed ∧
      h'.capacity p = some c ∧ n ≤ c ∧
      (p ∈ h.pool.ptrPool.map Prod.snd → c ≤ max (2 * n) 66)

theorem x_mem_pool_consistent {h : Heap} (hr : Reached h) : Consistent h := by
  have hh := inv_of_reached hr
  refine ⟨(List.nodup_append.mp hh.nodup).1, fun e he => hh.not_handed he, hh.pooled, ?_⟩
  intro n sys hn hsys
  obtain ⟨_, hres, c, hc, hle, hmax⟩ := hh.xMalloc_spec hn hsys
  refine ⟨_, _, c, if_pos ⟨hn, hsys⟩, rfl, hres, hc, hle, ?_⟩
  intro hmem
  rcases recycled_or_sys h.pool n sys with hnone | hsame
  · exact hmax hnone
  · rw [hsame] at hmem
    exact absurd hmem (hh.fresh hsys).1

/-- A block of 40 bytes comes back through `x_free`, another through `free`. -/
theorem x_mem_pool_consistent_two_blocks : ∃ h, Reached h ∧ h.pool.ptrPool = [(66, 4096)] ∧
    h.handed = [] ∧ Consistent h := by
  have hr : ∃ h, Reached h ∧ h.pool.ptrPool = [(66, 4096)] ∧ h.handed = [] := by
    refine ⟨_, ((((Relation.ReflTransGen.refl.tail ⟨.xMalloc 40 4096, rfl⟩).tail
      ⟨.xMalloc 100 8192, rfl⟩).tail ⟨.xFree 4096, rfl⟩).tail ⟨.free 8192, rfl⟩), rfl, rfl⟩
  obtain ⟨h, hreach, hpool, hhanded⟩ := hr
  exact ⟨h, hreach, hpool, hhanded, x_mem_pool_consistent hreach⟩

end XMem
end PyAgent
