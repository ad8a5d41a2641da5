import PyAgent.Machine
import Mathlib.Data.Nat.Count
import Mathlib.Data.Nat.Periodic
import Mathlib.Algebra.BigOperators.Ring.Finset

/-!
# Weighted round robin

`etcd_lb` of lb.h. An endpoint of weight w owns w consecutive residues modulo the
sum of all weights; `slot` is the owner of a residue and the balancer's pointer
follows it one call at a time.
-/

namespace PyAgent
set_option autoImplicit false

def maxEds : Nat := 10

structure LbEntry where
  host : Bytes
  port : Int
  weight : Int
  hash : Nat := 0

/-- `ends` and `rate` list the array elements stored so far. -/
structure EtcdLb where
  ends : List LbEntry
  rate : List Int
  ecnt : Nat
  rv : Nat
  prev : Int
  maxSum : Int

namespace EtcdLb

def empty : EtcdLb := ⟨[], [], 0, 0, 0, 0⟩

/-- `none` when the array is full. -/
def insert (lb : EtcdLb) (host : Bytes) (port weight : Int) : Option EtcdLb :=
  if lb.ecnt < maxEds then
    some { lb with
      ends := lb.ends.take lb.ecnt ++ [{ host := host, port := port, weight := weight }]
      ecnt := lb.ecnt + 1 }
  else none

def rateLoop : Int → List LbEntry → List Int
  | _, [] => []
  | acc, e :: es => toInt32 (acc + e.weight) :: rateLoop (toInt32 (acc + e.weight)) es

/-- `none` without entries: `rate[ecnt-1]` is then outside the array. -/
def initRate (lb : EtcdLb) : Option EtcdLb :=
  match lb.ends with
  | [] => none
  | e :: es =>
    let rate := e.weight :: rateLoop e.weight es
    some { lb with rate := rate, maxSum := rate.getLast (List.cons_ne_nil _ _), rv := 0, prev := 0 }

/-- `none` on a division by zero or an access outside `rate`. -/
def nextIdx (lb : EtcdLb) : Option (EtcdLb × Nat) :=
  if lb.maxSum = 0 then none
  else
    let prev := (toInt32 (lb.prev + 1)).tmod lb.maxSum
    if prev = 0 then some ({ lb with prev := prev, rv := 0 }, lb.rv)
    else
      match lb.rate[lb.rv]? with
      | none => none
      | some r =>
        if r ≤ prev then some ({ lb with prev := prev, rv := (lb.rv + 1) % lb.ecnt }, lb.rv)
        else some ({ lb with prev := prev }, lb.rv)

def insertAll (lb : EtcdLb) : List (Bytes × Int × Int) → Option EtcdLb
  | [] => some lb
  | (host, port, weight) :: es => (lb.insert host port weight).bind (insertAll · es)

def after (lb : EtcdLb) : Nat → Option EtcdLb
  | 0 => some lb
  | k + 1 => (lb.after k).bind fun lb' => lb'.nextIdx.map Prod.fst

def call (lb : EtcdLb) (k : Nat) : Option Nat :=
  (lb.after k).bind fun lb' => lb'.nextIdx.map Prod.snd

end EtcdLb

/-! ## Owners of residues -/

/-- The entry whose interval of residues contains `r`. -/
def slot : List Nat → Nat → Nat
  | [], _ => 0
  | w :: ws, r => if r < w then 0 else slot ws (r - w) + 1

section
variable {ws : List Nat} {r i : Nat}

theorem slot_bounds (hr : r < ws.sum) :
    slot ws r < ws.length ∧ (ws.take (slot ws r)).sum ≤ r ∧ r < (ws.take (slot ws r + 1)).sum := by
  induction ws generalizing r with
  | nil => simp at hr
  | cons w ws ih =>
    rw [List.sum_cons] at hr
    unfold slot
    split
    · rename_i h
      simp [h]
    · rename_i h
      obtain ⟨h₁, h₂, h₃⟩ := ih (r := r - w) (by omega)
      simp only [List.length_cons, List.take_succ_cons, List.sum_cons]
      exact ⟨by omega, by omega, by omega⟩

theorem sum_take_mono (ws : List Nat) {i j : Nat} (h : i ≤ j) :
    (ws.take i).sum ≤ (ws.take j).sum := by
  obtain ⟨k, rfl⟩ := Nat.exists_eq_add_of_le h
  rw [List.take_add, List.sum_append]
  exact Nat.le_add_right _ _

theorem slot_unique (hr : r < ws.sum) (h₁ : (ws.take i).sum ≤ r) (h₂ : r < (ws.take (i + 1)).sum) :
    slot ws r = i := by
  obtain ⟨_, h₃, h₄⟩ := slot_bounds hr
  rcases Nat.lt_trichotomy (slot ws r) i with h | h | h
  · have hnext : slot ws r + 1 ≤ i := h
    have := sum_take_mono ws hnext
    omega
  · exact h
  · have hnext : i + 1 ≤ slot ws r := h
    have := sum_take_mono ws hnext
    omega

/-- No entry of weight 0 stands before one of a positive weight. -/
def Solid (ws : List Nat) : Prop :=
  ∀ i, (hi : i < ws.length) → (ws.take i).sum < ws.sum → 0 < ws[i]

theorem solid_of_pos (hpos : ∀ w ∈ ws, 0 < w) : Solid ws :=
  fun _ hi _ => hpos _ (List.getElem_mem hi)

theorem sum_take_succ (hi : i < ws.length) : (ws.take (i + 1)).sum = (ws.take i).sum + ws[i] := by
  rw [List.take_add_one, List.sum_append, List.getElem?_eq_getElem hi]
  simp only [Option.toList_some, List.sum_singleton]

theorem solid_iff (ws : List Nat) : Solid ws ↔ ws.Pairwise fun a b => a = 0 → b = 0 := by
  rw [List.pairwise_iff_getElem]
  constructor
  · intro h i j hi hj hij hzero
    by_contra hne
    have hlt : (ws.take i).sum < ws.sum := by
      have hle := sum_take_mono ws (Nat.le_of_lt hij)
      have hnext := sum_take_mono ws (i := j + 1) (j := ws.length) hj
      rw [sum_take_succ hj, List.take_length] at hnext
      omega
    have := h i hi hlt
    omega
  · intro h i hi hlt
    by_contra hzero
    have hall : ∀ j, (hj : j < ws.length) → i ≤ j → ws[j] = 0 := by
      intro j hj hij
      rcases Nat.lt_or_eq_of_le hij with hij | rfl
      · exact h i j hi hj hij (by omega)
      · omega
    have hflat : ∀ j, i ≤ j → j ≤ ws.length → (ws.take j).sum = (ws.take i).sum := by
      intro j hij
      induction j, hij using Nat.le_induction with
      | base => exact fun _ => rfl
      | succ j hij ih =>
        intro hj
        rw [sum_take_succ hj, ih (by omega), hall j hj hij, Nat.add_zero]
    have := hflat ws.length (by omega) (Nat.le_refl _)
    rw [List.take_length] at this
    omega

theorem slot_zero (hsolid : Solid ws) (hpos : 0 < ws.sum) : slot ws 0 = 0 := by
  cases ws with
  | nil => rfl
  | cons w ws =>
    have hw : 0 < w := hsolid 0 (Nat.zero_lt_succ _) hpos
    simp [slot, hw]

theorem slot_succ (hsolid : Solid ws) (hr : r + 1 < ws.sum) :
    slot ws (r + 1) =
      if (ws.take (slot ws r + 1)).sum ≤ r + 1 then slot ws r + 1 else slot ws r := by
  have hlast : r < ws.sum := by omega
  obtain ⟨hlt, h₁, h₂⟩ := slot_bounds hlast
  split
  · rename_i h
    have hne : slot ws r + 1 < ws.length := by
      by_contra hge
      rw [List.take_of_length_le (by omega)] at h
      omega
    have hnext : 0 < ws[slot ws r + 1] := hsolid _ hne (by omega)
    apply slot_unique hr h
    rw [sum_take_succ hne]
    omega
  · rename_i h
    exact slot_unique hr (by omega) (by omega)

/-- Of the residues below the sum, entry `i` owns as many as its weight says. -/
theorem count_slot (hi : i < ws.length) :
    ws.sum.count (fun r => slot ws r = i) = ws[i] := by
  induction ws generalizing i with
  | nil => simp at hi
  | cons w ws ih =>
    have hhead : ∀ r, r < w → slot (w :: ws) r = 0 := by
      intro r hr
      simp [slot, hr]
    have htail : ∀ r, slot (w :: ws) (w + r) = slot ws r + 1 := by
      intro r
      simp [slot]
    rw [List.sum_cons, Nat.count_add]
    cases i with
    | zero =>
      have h₁ : w.count (fun r => slot (w :: ws) r = 0) = w := by
        rw [Nat.count_iff_forall]
        exact hhead
      have h₂ : ws.sum.count (fun r => slot (w :: ws) (w + r) = 0) = 0 := by
        rw [Nat.count_iff_forall_not]
        intro r _
        simp [htail]
      rw [h₁, h₂]
      rfl
    | succ i =>
      have h₁ : w.count (fun r => slot (w :: ws) r = i + 1) = 0 := by
        rw [Nat.count_iff_forall_not]
        intro r hr
        simp [hhead r hr]
      rw [h₁]
      simp only [htail, Nat.add_right_cancel_iff, List.getElem_cons_succ, Nat.zero_add]
      exact ih (by simpa using hi)

/-- So it does in every window as long as the sum. -/
theorem card_slot_window (start : Nat) (hi : i < ws.length) :
    ((Finset.Ico start (start + ws.sum)).filter fun k => slot ws (k % ws.sum) = i).card =
      ws[i] := by
  have hperiodic : Function.Periodic (fun k => slot ws (k % ws.sum) = i) ws.sum := by
    intro k
    simp
  have hfirst : ws.sum.count (fun k => slot ws (k % ws.sum) = i) =
      ws.sum.count (fun r => slot ws r = i) := by
    rw [Nat.count_eq_card_filter_range, Nat.count_eq_card_filter_range]
    refine congrArg Finset.card (Finset.filter_congr fun r hr => ?_)
    rw [Nat.mod_eq_of_lt (Finset.mem_range.mp hr)]
  rw [Nat.filter_Ico_card_eq_of_periodic start ws.sum _ hperiodic, hfirst, count_slot hi]

end

/-! ## The balancer follows the owner -/

namespace EtcdLb

def rateBefore (lb : EtcdLb) : Nat → Option Int
  | 0 => some 0
  | i + 1 => lb.rate[i]?

theorem insertAll_eq {lb : EtcdLb} {eds : List (Bytes × Int × Int)}
    (hends : lb.ends.length = lb.ecnt) (hroom : lb.ecnt + eds.length ≤ maxEds) :
    lb.insertAll eds = some { lb with
      ends := lb.ends ++ eds.map fun e => { host := e.1, port := e.2.1, weight := e.2.2 }
      ecnt := lb.ecnt + eds.length } := by
  induction eds generalizing lb with
  | nil => simp [insertAll]
  | cons e eds ih =>
    rw [List.length_cons] at hroom
    rw [insertAll, insert, if_pos (by omega), List.take_of_length_le (by omega)]
    simp only [Option.bind_some]
    rw [ih (by simp [hends]) (by simp only; omega)]
    have hcnt : lb.ecnt + 1 + eds.length = lb.ecnt + (eds.length + 1) := by omega
    simp only [List.map_cons, List.append_assoc, List.singleton_append, List.length_cons, hcnt]

theorem rateLoop_getElem? {ws : List Nat} {es : List LbEntry} {acc : Nat}
    (hes : es.map LbEntry.weight = ws.map Nat.cast) (hsum : acc + ws.sum < 2147483648)
    {i : Nat} (hi : i < ws.length) :
    (rateLoop acc es)[i]? = some ((acc + (ws.take (i + 1)).sum : Nat) : Int) := by
  induction ws generalizing es acc i with
  | nil => simp at hi
  | cons w ws ih =>
    cases es with
    | nil => simp at hes
    | cons e es =>
      simp only [List.map_cons, List.cons.injEq] at hes
      rw [List.sum_cons] at hsum
      have hadd : toInt32 ((acc : Int) + e.weight) = ((acc + w : Nat) : Int) := by
        rw [hes.1, toInt32_of_isInt32 ⟨by omega, by omega⟩]
        omega
      rw [rateLoop, hadd]
      cases i with
      | zero => simp
      | succ i =>
        rw [List.getElem?_cons_succ, ih hes.2 (by omega) (by simpa using hi)]
        simp only [List.take_succ_cons, List.sum_cons]
        rw [Nat.add_assoc]

theorem rateLoop_length (acc : Int) (es : List LbEntry) : (rateLoop acc es).length = es.length := by
  induction es generalizing acc with
  | nil => rfl
  | cons e es ih => simp [rateLoop, ih]

/-- After `k` calls: the sums are in place and `prev` counts the calls modulo `W`. -/
structure Counts (ws : List Nat) (k : Nat) (lb : EtcdLb) : Prop where
  rate : ∀ i, i < ws.length → lb.rate[i]? = some ((ws.take (i + 1)).sum : Int)
  ecnt : lb.ecnt = ws.length
  maxSum : lb.maxSum = ws.sum
  prev : lb.prev = (k % ws.sum : Nat)
  rv_lt : lb.rv < ws.length

/-- After `k` calls: the sums are in place and the pointer is at the owner of `k mod W`. -/
structure Tracks (ws : List Nat) (k : Nat) (lb : EtcdLb) : Prop where
  rate : ∀ i, i < ws.length → lb.rate[i]? = some ((ws.take (i + 1)).sum : Int)
  ecnt : lb.ecnt = ws.length
  maxSum : lb.maxSum = ws.sum
  prev : lb.prev = (k % ws.sum : Nat)
  rv : lb.rv = slot ws (k % ws.sum)

section
variable {ws : List Nat} {k : Nat} {lb : EtcdLb}

theorem initRate_counts (hends : lb.ends.map LbEntry.weight = ws.map Nat.cast)
    (hcnt : lb.ecnt = ws.length) (hpos : 0 < ws.sum) (hsum : ws.sum < 2147483648) :
    ∃ lb', lb.initRate = some lb' ∧ lb'.ends = lb.ends ∧ lb'.rv = 0 ∧ lb'.Counts ws 0 := by
  cases ws with
  | nil => simp at hpos
  | cons w ws =>
    cases hlb : lb.ends with
    | nil => simp [hlb] at hends
    | cons e es =>
      simp only [hlb, List.map_cons, List.cons.injEq] at hends
      rw [List.sum_cons] at hsum
      have hlen : es.length = ws.length := by simpa using congrArg List.length hends.2
      have hrate : ∀ i, i < (w :: ws).length →
          (e.weight :: rateLoop e.weight es)[i]? = some (((w :: ws).take (i + 1)).sum : Int) := by
        intro i hi
        cases i with
        | zero => simp [hends.1]
        | succ i =>
          rw [hends.1, List.getElem?_cons_succ, rateLoop_getElem? hends.2 hsum (by simpa using hi)]
          simp
      simp only [initRate, hlb]
      refine ⟨_, rfl, rfl, rfl, hrate, hcnt, ?_, ?_, Nat.zero_lt_succ _⟩
      · have hlast := hrate ws.length (by simp)
        rw [List.take_of_length_le (by simp)] at hlast
        rw [← Option.some.injEq, ← List.getLast?_eq_some_getLast, List.getLast?_eq_getElem?,
          List.length_cons, rateLoop_length, hlen]
        exact hlast
      · simp

/-- What one call does: the pointer goes back to the start, or one step on, or stays. -/
theorem Counts.next (h : lb.Counts ws k) (hpos : 0 < ws.sum) (hsum : ws.sum < 2147483648) :
    ∃ lb', lb.nextIdx = some (lb', lb.rv) ∧ lb'.Counts ws (k + 1) ∧
      lb'.rv = if (k + 1) % ws.sum = 0 then 0
        else if (ws.take (lb.rv + 1)).sum ≤ (k + 1) % ws.sum then (lb.rv + 1) % ws.length
        else lb.rv := by
  have hr := Nat.mod_lt k hpos
  have hlen : 0 < ws.length := Nat.lt_of_le_of_lt (Nat.zero_le _) h.rv_lt
  have hprev : (toInt32 (lb.prev + 1)).tmod lb.maxSum = ((k + 1) % ws.sum : Nat) := by
    rw [h.prev, h.maxSum, toInt32_of_isInt32 ⟨by omega, by omega⟩,
      Int.tmod_eq_emod_of_nonneg (by omega), ← Nat.mod_add_mod k ws.sum 1]
    rfl
  rw [nextIdx, if_neg (by rw [h.maxSum]; omega), hprev]
  by_cases hwrap : (k + 1) % ws.sum = 0
  · rw [if_pos (by omega), if_pos hwrap]
    exact ⟨_, rfl, ⟨h.rate, h.ecnt, h.maxSum, rfl, hlen⟩, rfl⟩
  · rw [if_neg (by omega), if_neg hwrap, h.rate _ h.rv_lt]
    by_cases hle : (ws.take (lb.rv + 1)).sum ≤ (k + 1) % ws.sum
    · simp only [if_pos hle]
      rw [if_pos (by omega), h.ecnt]
      exact ⟨_, rfl, ⟨h.rate, rfl, h.maxSum, rfl, Nat.mod_lt _ hlen⟩, rfl⟩
    · simp only [if_neg hle]
      rw [if_neg (by omega)]
      exact ⟨_, rfl, ⟨h.rate, h.ecnt, h.maxSum, rfl, h.rv_lt⟩, rfl⟩

theorem Counts.after (h : lb.Counts ws 0) (hpos : 0 < ws.sum) (hsum : ws.sum < 2147483648)
    (k : Nat) : ∃ lb', lb.after k = some lb' ∧ lb'.Counts ws k ∧ lb.call k = some lb'.rv := by
  have hafter : ∃ lb', lb.after k = some lb' ∧ lb'.Counts ws k := by
    induction k with
    | zero => exact ⟨lb, rfl, h⟩
    | succ k ih =>
      obtain ⟨lb', hlb', hc⟩ := ih
      obtain ⟨lb'', hnext, hc', _⟩ := hc.next hpos hsum
      exact ⟨lb'', by simp [EtcdLb.after, hlb', hnext], hc'⟩
  obtain ⟨lb', hlb', hc⟩ := hafter
  obtain ⟨lb'', hnext, _⟩ := hc.next hpos hsum
  exact ⟨lb', hlb', hc, by simp [call, hlb', hnext]⟩

theorem Counts.tracks (h : lb.Counts ws k) (hrv : lb.rv = slot ws (k % ws.sum)) :
    lb.Tracks ws k := ⟨h.rate, h.ecnt, h.maxSum, h.prev, hrv⟩

theorem Tracks.counts (h : lb.Tracks ws k) (hpos : 0 < ws.sum) : lb.Counts ws k := by
  have hlt := (slot_bounds (Nat.mod_lt k hpos)).1
  exact ⟨h.rate, h.ecnt, h.maxSum, h.prev, by rw [h.rv]; exact hlt⟩

theorem Tracks.next (h : lb.Tracks ws k) (hsolid : Solid ws) (hpos : 0 < ws.sum)
    (hsum : ws.sum < 2147483648) :
    ∃ lb', lb.nextIdx = some (lb', slot ws (k % ws.sum)) ∧ lb'.Tracks ws (k + 1) := by
  have hr := Nat.mod_lt k hpos
  have hmod : (k + 1) % ws.sum = if k % ws.sum + 1 = ws.sum then 0 else k % ws.sum + 1 := by
    rw [← Nat.mod_add_mod]
    split
    · rename_i heq
      rw [heq, Nat.mod_self]
    · exact Nat.mod_eq_of_lt (by omega)
  obtain ⟨lb', hnext, hcounts, hrv⟩ := (h.counts hpos).next hpos hsum
  rw [h.rv] at hnext hrv
  refine ⟨lb', hnext, hcounts.tracks ?_⟩
  by_cases hwrap : k % ws.sum + 1 = ws.sum
  · rw [if_pos hwrap] at hmod
    rw [hrv, if_pos hmod, hmod, slot_zero hsolid hpos]
  · rw [if_neg hwrap] at hmod
    have hr' : k % ws.sum + 1 < ws.sum := by omega
    have hsucc := slot_succ hsolid hr'
    rw [hrv, if_neg (by omega), hmod, hsucc]
    split
    · rename_i hle
      rw [if_pos hle] at hsucc
      have hlt := (slot_bounds hr').1
      rw [hsucc] at hlt
      exact Nat.mod_eq_of_lt hlt
    · rfl

theorem Tracks.call_eq (h : lb.Tracks ws 0) (hsolid : Solid ws) (hpos : 0 < ws.sum)
    (hsum : ws.sum < 2147483648) (k : Nat) : lb.call k = some (slot ws (k % ws.sum)) := by
  have htracks : ∃ lb', lb.after k = some lb' ∧ lb'.Tracks ws k := by
    induction k with
    | zero => exact ⟨lb, rfl, h⟩
    | succ k ih =>
      obtain ⟨lb', hlb', ht⟩ := ih
      obtain ⟨lb'', hnext, ht'⟩ := ht.next hsolid hpos hsum
      exact ⟨lb'', by simp [EtcdLb.after, hlb', hnext], ht'⟩
  obtain ⟨lb', hlb', ht⟩ := htracks
  obtain ⟨lb'', hnext, _⟩ := ht.next hsolid hpos hsum
  simp [call, hlb', hnext]

end

/-- If every call returned the owner of its residue, the pointer would have to step over an entry of
weight 0. -/
theorem Counts.solid {ws : List Nat} {lb : EtcdLb} (h : lb.Counts ws 0) (hrv : lb.rv = 0)
    (hpos : 0 < ws.sum) (hsum : ws.sum < 2147483648)
    (hcall : ∀ k, lb.call k = some (slot ws (k % ws.sum))) : Solid ws := by
  intro i hi hlt
  by_contra hzero
  have hlen : 0 < ws.length := by omega
  have hfirst : 0 < ws[0] := by
    obtain ⟨lb', hlb', _, hcall₀⟩ := h.after hpos hsum 0
    obtain rfl : lb = lb' := Option.some.inj hlb'
    rw [hcall, Option.some.injEq, Nat.zero_mod, hrv] at hcall₀
    have hbounds := (slot_bounds hpos).2.2
    rw [hcall₀, sum_take_succ hlen] at hbounds
    simpa using hbounds
  -- the call before the one that reaches residue `s`, where entry `i` would start
  obtain ⟨s, hs⟩ : ∃ s, s + 1 = (ws.take i).sum := by
    have hstep : 1 ≤ i := by
      by_contra hi0
      obtain rfl : i = 0 := by omega
      omega
    have hle := sum_take_mono ws hstep
    rw [sum_take_succ hlen] at hle
    exact ⟨(ws.take i).sum - 1, by omega⟩
  have hsmall : s < ws.sum := by omega
  have hmod : s % ws.sum = s := Nat.mod_eq_of_lt hsmall
  have hmod' : (s + 1) % ws.sum = s + 1 := Nat.mod_eq_of_lt (by omega)
  obtain ⟨hb, hlo, hhi⟩ := slot_bounds hsmall
  obtain ⟨lb₁, hlb₁, hc₁, hcall₁⟩ := h.after hpos hsum s
  rw [hcall, hmod, Option.some.injEq] at hcall₁
  obtain ⟨lb₂, hlb₂, _, hcall₂⟩ := h.after hpos hsum (s + 1)
  rw [hcall, hmod', Option.some.injEq] at hcall₂
  obtain ⟨lb₂', hnext, _, hrv₂⟩ := hc₁.next hpos hsum
  obtain rfl : lb₂' = lb₂ := by
    have hstep : lb.after (s + 1) = some lb₂' := by simp [EtcdLb.after, hlb₁, hnext]
    exact Option.some.inj (hstep.symm.trans hlb₂)
  have hbefore : slot ws s + 1 ≤ i := by
    by_contra hge
    have hle : i ≤ slot ws s := by omega
    have := sum_take_mono ws hle
    omega
  have hedge := sum_take_mono ws hbefore
  rw [← hcall₁, hmod', if_neg (by omega), if_pos (by omega), Nat.mod_eq_of_lt (by omega)] at hrv₂
  have hsmall' : s + 1 < ws.sum := by omega
  have hown := (slot_bounds hsmall').2.2
  rw [hcall₂, hrv₂] at hown
  rcases Nat.lt_or_eq_of_le hbefore with hlt' | heq
  · have := sum_take_mono ws (i := slot ws s + 1 + 1) (j := i) hlt'
    omega
  · rw [heq, sum_take_succ hi] at hown
    omega

theorem exists_natWeights {eds : List (Bytes × Int × Int)} (hnonneg : ∀ e ∈ eds, 0 ≤ e.2.2) :
    ∃ ws : List Nat, eds.map (fun e => e.2.2) = ws.map Nat.cast ∧
      (ws.sum : Int) = (eds.map fun e => e.2.2).sum := by
  let ws : List Nat := eds.map fun e => e.2.2.toNat
  have hcast : eds.map (fun e => e.2.2) = ws.map (Nat.cast : Nat → Int) := by
    simp only [ws, List.map_map]
    refine List.map_congr_left fun e he => ?_
    have := hnonneg e he
    simp only [Function.comp]
    omega
  exact ⟨ws, hcast, by rw [hcast, ← Nat.cast_list_sum]⟩

/-- The balancer `main` sets up. -/
theorem insertAll_initRate {eds : List (Bytes × Int × Int)} {ws : List Nat}
    (hmax : eds.length ≤ maxEds) (hws : eds.map (fun e => e.2.2) = ws.map Nat.cast)
    (hpos : 0 < ws.sum) (hsum : ws.sum < 2147483648) :
    ∃ lb₀ lb, empty.insertAll eds = some lb₀ ∧ lb₀.initRate = some lb ∧
      lb.ends.length = eds.length ∧ lb.rv = 0 ∧ lb.Counts ws 0 := by
  let lb₀ : EtcdLb := { empty with
    ends := empty.ends ++ eds.map fun e => { host := e.1, port := e.2.1, weight := e.2.2 }
    ecnt := empty.ecnt + eds.length }
  have hins : empty.insertAll eds = some lb₀ := insertAll_eq rfl (by simpa [empty] using hmax)
  have hends₀ : lb₀.ends.map LbEntry.weight = ws.map Nat.cast := by
    rw [← hws]
    simp [lb₀, empty, Function.comp_def]
  have hlen : eds.length = ws.length := by simpa using congrArg List.length hws
  have hcnt₀ : lb₀.ecnt = ws.length := by simp [lb₀, empty, hlen]
  obtain ⟨lb, hinit, hends, hrv, hcounts⟩ := initRate_counts hends₀ hcnt₀ hpos hsum
  exact ⟨lb₀, lb, hins, hinit, by rw [hends]; simp [lb₀, empty], hrv, hcounts⟩

/-- The `k`-th call returns the endpoint that owns `k mod W`, so in every window of `W` calls each
endpoint is chosen as often as its weight says. -/
theorem nextIdx_exact {eds : List (Bytes × Int × Int)} {W : Nat} (h1 : 1 ≤ eds.length)
    (hmax : eds.length ≤ maxEds) (hpos : ∀ e ∈ eds, 1 ≤ e.2.2)
    (hW : (eds.map fun e => e.2.2).sum = W) (hsum : W < 2147483648) :
    ∃ lb₀ lb, empty.insertAll eds = some lb₀ ∧ lb₀.initRate = some lb ∧
      lb.ends.length = eds.length ∧
      (∀ k, ∃ i lo hi, lb.call k = some i ∧ i < eds.length ∧ lb.rateBefore i = some lo ∧
        lb.rate[i]? = some hi ∧ lo ≤ (k % W : Nat) ∧ ((k % W : Nat) : Int) < hi) ∧
      (∀ start i, (hi : i < eds.length) →
        (((Finset.Ico start (start + W)).filter fun k => lb.call k = some i).card : Int) =
          eds[i].2.2) := by
  obtain ⟨ws, hcast, hws⟩ := exists_natWeights fun e he => by
    have := hpos e he
    omega
  obtain rfl : ws.sum = W := by omega
  have hlen : eds.length = ws.length := by simpa using congrArg List.length hcast
  have hweight : ∀ i, (hi : i < eds.length) → (hi' : i < ws.length) →
      eds[i].2.2 = (ws[i] : Int) := by
    intro i hi _
    have h := List.getElem_of_eq hcast (by simpa using hi)
    simpa using h
  have hpos' : ∀ w ∈ ws, 0 < w := by
    intro w hw
    obtain ⟨i, hi, rfl⟩ := List.getElem_of_mem hw
    have := hpos _ (List.getElem_mem (show i < eds.length by omega))
    rw [hweight i (by omega) hi] at this
    omega
  have hne : ws ≠ [] := by
    rw [← List.length_pos_iff]
    omega
  have hsolid := solid_of_pos hpos'
  have hsum' := List.sum_pos ws hpos' hne
  obtain ⟨lb₀, lb, hins, hinit, hends, hrv, hcounts⟩ := insertAll_initRate hmax hcast hsum' hsum
  have htracks := hcounts.tracks (by rw [hrv, Nat.zero_mod, slot_zero hsolid hsum'])
  have hcall := htracks.call_eq hsolid hsum' hsum
  refine ⟨lb₀, lb, hins, hinit, hends, ?_, ?_⟩
  · intro k
    obtain ⟨hlt, hlo, hhi⟩ := slot_bounds (Nat.mod_lt k hsum')
    refine ⟨slot ws (k % ws.sum), ((ws.take (slot ws (k % ws.sum))).sum : Nat), _, hcall k,
      by omega, ?_, hcounts.rate _ hlt, by exact_mod_cast hlo, by exact_mod_cast hhi⟩
    cases hs : slot ws (k % ws.sum) with
    | zero => simp [rateBefore]
    | succ i => exact hcounts.rate i (by omega)
  · intro start i hi
    have hi' : i < ws.length := by omega
    simp only [hcall, Option.some.injEq]
    rw [card_slot_window start hi', hweight i hi hi']

/-- Weights 1, 2 and 3: the calls 5 to 10 choose the last endpoint three times. -/
theorem nextIdx_exact_one_two_three :
    ∃ lb₀ lb, empty.insertAll [([], 30000, 1), ([], 30001, 2), ([], 30002, 3)] = some lb₀ ∧
      lb₀.initRate = some lb ∧ lb.ends.length = 3 ∧
      (((Finset.Ico 5 11).filter fun k => lb.call k = some 2).card : Int) = 3 := by
  let eds : List (Bytes × Int × Int) := [([], 30000, 1), ([], 30001, 2), ([], 30002, 3)]
  have hsum : (eds.map fun e => e.2.2).sum = 6 := by decide
  obtain ⟨lb₀, lb, hins, hinit, hlen, _, hwindow⟩ :=
    nextIdx_exact (by decide) (by decide) (by decide) hsum (by decide)
  exact ⟨lb₀, lb, hins, hinit, hlen, hwindow 5 2 (by decide)⟩

end EtcdLb
end PyAgent
