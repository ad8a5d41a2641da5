import PyAgent.EtcdLb

/-!
# The two balancers

`EndPoints` of ca.py finds the next endpoint with a binary search over the sums of the
weights, `etcd_lb` of lb.h moves a pointer by one step at most. They pick the same
endpoints unless one of weight 0 stands before one of a positive weight.
-/

namespace PyAgent
set_option autoImplicit false

namespace Python

/-- The loop of `bisect_left`; the window shrinks in every pass, so as many passes as it is wide
are enough. -/
def bisectLoop (a : List Int) (x : Int) : Nat → Nat → Nat → Nat
  | 0, lo, _ => lo
  | n + 1, lo, hi =>
    if lo < hi then
      let mid := (lo + hi) / 2
      if a.getD mid 0 < x then bisectLoop a x n (mid + 1) hi else bisectLoop a x n lo mid
    else lo

def bisectLeft (a : List Int) (x : Int) : Nat := bisectLoop a x a.length 0 a.length

structure EndPoint where
  host : Bytes
  port : Int
  weight : Int
  deriving DecidableEq

structure EndPoints where
  endPoints : List EndPoint
  rate : List Int
  prev : Int
  maxSum : Int
  cntMap : List Nat

/-- `rate[i] = rate[i-1] + rate[i]`, from the second entry on. -/
def sumRates : Int → List Int → List Int
  | _, [] => []
  | acc, w :: ws => (acc + w) :: sumRates (acc + w) ws

namespace EndPoints

/-- `__init__` behind the sort; `none` without entries, when `rate[-1]` raises. -/
def ofSorted (endPoints : List EndPoint) : Option EndPoints :=
  match endPoints with
  | [] => none
  | e :: es =>
    let rate := e.weight :: sumRates e.weight (es.map EndPoint.weight)
    some ⟨e :: es, rate, 0, rate.getLast (List.cons_ne_nil _ _), rate.map fun _ => 0⟩

/-- `__init__`, from what etcd has registered. -/
def init (children : List EndPoint) : Option EndPoints :=
  ofSorted (children.mergeSort fun a b => -a.weight ≤ -b.weight)

/-- The index `choice` looks up. -/
def pick (e : EndPoints) : Nat := bisectLeft e.rate (e.prev + 1)

/-- `none` where an index is out of range or the sum is 0, which raises. -/
def choice (e : EndPoints) : EndPoints × Option (Bytes × Int) :=
  match e.cntMap[e.pick]?, e.endPoints[e.pick]? with
  | some _, some res =>
    let e := { e with cntMap := e.cntMap.modify e.pick (· + 1) }
    if e.maxSum = 0 then (e, none)
    else ({ e with prev := (e.prev + 1).fmod e.maxSum }, some (res.host, res.port))
  | some _, none => ({ e with cntMap := e.cntMap.modify e.pick (· + 1) }, none)
  | none, _ => (e, none)

def after (e : EndPoints) : Nat → EndPoints
  | 0 => e
  | k + 1 => (e.after k).choice.1

end EndPoints

/-! ## Binary search -/

section
variable {a : List Int} {x : Int} {t : Nat}

/-- Below `t` every entry is less than `x`, and from `t` on none is. -/
structure Threshold (a : List Int) (x : Int) (t : Nat) : Prop where
  le : t ≤ a.length
  below : ∀ i, i < t → a.getD i 0 < x
  above : ∀ i, t ≤ i → i < a.length → x ≤ a.getD i 0

theorem Threshold.bisectLoop (h : Threshold a x t) {n lo hi : Nat} (hn : hi - lo ≤ n) (hlo : lo ≤ t)
    (hhi : t ≤ hi) (hlen : hi ≤ a.length) : bisectLoop a x n lo hi = t := by
  induction n generalizing lo hi with
  | zero =>
    rw [Python.bisectLoop]
    omega
  | succ n ih =>
    rw [Python.bisectLoop]
    by_cases hlt : lo < hi
    · rw [if_pos hlt]
      by_cases hmid : a.getD ((lo + hi) / 2) 0 < x
      · -- the middle lies below the threshold
        have hbelow : (lo + hi) / 2 < t := by
          by_contra hge
          have := h.above ((lo + hi) / 2) (by omega) (by omega)
          omega
        simp only [if_pos hmid]
        exact ih (by omega) (by omega) hhi hlen
      · have habove : t ≤ (lo + hi) / 2 := by
          by_contra hge
          have := h.below ((lo + hi) / 2) (by omega)
          omega
        simp only [if_neg hmid]
        exact ih (by omega) hlo habove (by omega)
    · rw [if_neg hlt]
      omega

theorem Threshold.bisectLeft (h : Threshold a x t) : bisectLeft a x = t :=
  h.bisectLoop (Nat.le_refl _) (Nat.zero_le _) h.le (Nat.le_refl _)

end

/-! ## What `choice` picks -/

theorem sumRates_getElem? {ws : List Nat} {acc i : Nat} (hi : i < ws.length) :
    (sumRates acc (ws.map Nat.cast))[i]? = some ((acc + (ws.take (i + 1)).sum : Nat) : Int) := by
  induction ws generalizing acc i with
  | nil => simp at hi
  | cons w ws ih =>
    have hadd : (acc : Int) + w = ((acc + w : Nat) : Int) := by omega
    rw [List.map_cons, sumRates, hadd]
    cases i with
    | zero => simp
    | succ i =>
      rw [List.getElem?_cons_succ, ih (by simpa using hi)]
      simp only [List.take_succ_cons, List.sum_cons]
      rw [Nat.add_assoc]

theorem sumRates_length (acc : Int) (ws : List Int) : (sumRates acc ws).length = ws.length := by
  induction ws generalizing acc with
  | nil => rfl
  | cons w ws ih => simp [sumRates, ih]

namespace EndPoints

/-- After `k` choices among endpoints with these weights. -/
structure Searches (es : List EndPoint) (ws : List Nat) (k : Nat) (e : EndPoints) : Prop where
  endPoints : e.endPoints = es
  rate : ∀ i, i < ws.length → e.rate[i]? = some ((ws.take (i + 1)).sum : Int)
  rate_length : e.rate.length = ws.length
  prev : e.prev = (k % ws.sum : Nat)
  maxSum : e.maxSum = ws.sum
  cntMap : e.cntMap.length = ws.length

theorem ofSorted_searches {es : List EndPoint} {ws : List Nat}
    (hes : es.map EndPoint.weight = ws.map Nat.cast) (hne : ws ≠ []) :
    ∃ e, ofSorted es = some e ∧ e.Searches es ws 0 := by
  cases ws with
  | nil => exact absurd rfl hne
  | cons w ws =>
    cases es with
    | nil => simp at hes
    | cons e es =>
      simp only [List.map_cons, List.cons.injEq] at hes
      have hrate : ∀ i, i < (w :: ws).length →
          (e.weight :: sumRates e.weight (es.map EndPoint.weight))[i]? =
            some (((w :: ws).take (i + 1)).sum : Int) := by
        intro i hi
        cases i with
        | zero => simp [hes.1]
        | succ i =>
          rw [hes.1, hes.2, List.getElem?_cons_succ, sumRates_getElem? (by simpa using hi)]
          simp
      have hlen : es.length = ws.length := by simpa using congrArg List.length hes.2
      refine ⟨_, rfl, rfl, hrate, ?_, by simp, ?_, ?_⟩
      · simp [sumRates_length, hlen]
      · have hlast := hrate ws.length (by simp)
        rw [List.take_of_length_le (by simp)] at hlast
        rw [← Option.some.injEq, ← List.getLast?_eq_some_getLast, List.getLast?_eq_getElem?,
          List.length_cons, sumRates_length, List.length_map, hlen]
        exact hlast
      · simp [sumRates_length, hlen]

section
variable {es : List EndPoint} {ws : List Nat} {k : Nat} {e : EndPoints}

theorem Searches.getD_rate (h : e.Searches es ws k) {i : Nat} (hi : i < ws.length) :
    e.rate.getD i 0 = ((ws.take (i + 1)).sum : Nat) := by
  rw [List.getD_eq_getElem?_getD, h.rate i hi, Option.getD_some]

theorem Searches.pick_eq (h : e.Searches es ws k) (hpos : 0 < ws.sum) :
    e.pick = slot ws (k % ws.sum) := by
  obtain ⟨hlt, hlo, hhi⟩ := slot_bounds (Nat.mod_lt k hpos)
  apply Threshold.bisectLeft
  refine ⟨by rw [h.rate_length]; omega, ?_, ?_⟩
  · intro i hi
    have := sum_take_mono ws (i := i + 1) (j := slot ws (k % ws.sum)) hi
    rw [h.getD_rate (by omega), h.prev]
    omega
  · intro i hi hi'
    rw [h.rate_length] at hi'
    have := sum_take_mono ws (i := slot ws (k % ws.sum) + 1) (j := i + 1) (by omega)
    rw [h.getD_rate hi', h.prev]
    omega

/-- A choice raises nothing and returns the host and the port of the owner. -/
theorem Searches.choice (h : e.Searches es ws k) (hes : es.length = ws.length) (hpos : 0 < ws.sum) :
    e.choice.1.Searches es ws (k + 1) ∧
      e.choice.2 = es[slot ws (k % ws.sum)]?.map fun res => (res.host, res.port) := by
  have hlt := (slot_bounds (Nat.mod_lt k hpos)).1
  have hpick := h.pick_eq hpos
  have hcnt : ∃ c, e.cntMap[slot ws (k % ws.sum)]? = some c :=
    ⟨_, List.getElem?_eq_getElem (by rw [h.cntMap]; exact hlt)⟩
  obtain ⟨c, hcnt⟩ := hcnt
  have hend : es[slot ws (k % ws.sum)]? = some es[slot ws (k % ws.sum)] :=
    List.getElem?_eq_getElem _
  have hsum : e.maxSum ≠ 0 := by
    rw [h.maxSum]
    omega
  have hprev : (e.prev + 1).fmod e.maxSum = ((k + 1) % ws.sum : Nat) := by
    rw [h.prev, h.maxSum, Int.fmod_eq_emod_of_nonneg _ (by omega), ← Nat.mod_add_mod k ws.sum 1]
    rfl
  unfold EndPoints.choice
  simp only [hpick, h.endPoints, hcnt, hend, if_neg hsum, hprev]
  exact ⟨⟨rfl, h.rate, h.rate_length, rfl, h.maxSum, by simp [h.cntMap]⟩, rfl⟩

theorem Searches.after (h : e.Searches es ws 0) (hes : es.length = ws.length) (hpos : 0 < ws.sum)
    (k : Nat) : (e.after k).Searches es ws k := by
  induction k with
  | zero => exact h
  | succ k ih => exact (ih.choice hes hpos).1

/-- Without a positive weight every choice raises. -/
theorem Searches.raises (h : e.Searches es ws 0) (hzero : ws.sum = 0) (k : Nat) :
    e.after k = e ∧ e.choice.2 = none := by
  have hpick : e.pick = ws.length := by
    apply Threshold.bisectLeft
    refine ⟨by rw [h.rate_length], ?_, ?_⟩
    · intro i hi
      have := sum_take_mono ws (i := i + 1) (j := ws.length) hi
      rw [List.take_length] at this
      rw [h.getD_rate hi, h.prev]
      omega
    · intro i hi hi'
      rw [h.rate_length] at hi'
      omega
  have hcnt : e.cntMap[e.pick]? = none := by
    rw [List.getElem?_eq_none_iff, hpick, h.cntMap]
  have hraise : e.choice = (e, none) := by
    unfold EndPoints.choice
    simp only [hcnt]
  refine ⟨?_, by rw [hraise]⟩
  induction k with
  | zero => rfl
  | succ k ih => rw [EndPoints.after, ih, hraise]

/-- The endpoints that are ever chosen are those of a positive weight. -/
theorem Searches.chosen_iff (h : e.Searches es ws 0)
    (hes : es.map EndPoint.weight = ws.map Nat.cast) (host : Bytes) (port : Int) :
    (∃ k, (e.after k).choice.2 = some (host, port)) ↔
      ∃ a ∈ es, 0 < a.weight ∧ a.host = host ∧ a.port = port := by
  have hlen : es.length = ws.length := by simpa using congrArg List.length hes
  have hweight : ∀ i, (hi : i < es.length) → (hi' : i < ws.length) →
      es[i].weight = (ws[i] : Int) := by
    intro i hi _
    have h := List.getElem_of_eq hes (by simpa using hi)
    simpa using h
  rcases Nat.eq_zero_or_pos ws.sum with hzero | hpos
  · constructor
    · rintro ⟨k, hk⟩
      obtain ⟨hafter, hraise⟩ := h.raises hzero k
      rw [hafter, hraise] at hk
      cases hk
    · rintro ⟨a, ha, hpositive, _, _⟩
      obtain ⟨i, hi, rfl⟩ := List.getElem_of_mem ha
      rw [hweight i hi (by omega),
        List.sum_eq_zero_iff.mp hzero _ (List.getElem_mem _)] at hpositive
      omega
  · constructor
    · rintro ⟨k, hk⟩
      obtain ⟨hlt, hlo, hhi⟩ := slot_bounds (Nat.mod_lt k hpos)
      rw [((h.after hlen hpos k).choice hlen hpos).2, List.getElem?_eq_getElem (by omega),
        Option.map_some, Option.some.injEq, Prod.mk.injEq] at hk
      refine ⟨_, List.getElem_mem (by omega), ?_, hk⟩
      rw [sum_take_succ hlt] at hhi
      rw [hweight _ (by omega) hlt]
      omega
    · rintro ⟨a, ha, hpositive, rfl, rfl⟩
      obtain ⟨i, hi, rfl⟩ := List.getElem_of_mem ha
      have hi' : i < ws.length := by omega
      rw [hweight i hi hi'] at hpositive
      have hend := sum_take_mono ws (i := i + 1) (j := ws.length) hi'
      rw [List.take_length, sum_take_succ hi'] at hend
      have hr : (ws.take i).sum < ws.sum := by omega
      have hslot : slot ws (ws.take i).sum = i :=
        slot_unique hr (Nat.le_refl _) (by rw [sum_take_succ hi']; omega)
      refine ⟨(ws.take i).sum, ?_⟩
      rw [((h.after hlen hpos _).choice hlen hpos).2, Nat.mod_eq_of_lt hr, hslot,
        List.getElem?_eq_getElem hi, Option.map_some]

end

end EndPoints
end Python

/-! ## The pointer and the search -/

namespace EtcdLb

/-- For non-negative weights the two balancers pick the same entries, and none of weight 0, exactly
when no entry of weight 0 stands before one of a positive weight. -/
theorem nextIdx_eq_pick_iff {eds : List (Bytes × Int × Int)} {W : Nat}
    (hmax : eds.length ≤ maxEds) (hnonneg : ∀ e ∈ eds, 0 ≤ e.2.2)
    (hW : (eds.map fun e => e.2.2).sum = W) (hpos : 0 < W) (hsum : W < 2147483648) :
    ∃ lb₀ lb py, empty.insertAll eds = some lb₀ ∧ lb₀.initRate = some lb ∧
      Python.EndPoints.ofSorted (eds.map fun e => ⟨e.1, e.2.1, e.2.2⟩) = some py ∧
      (((∀ k, lb.call k = some (py.after k).pick) ∧
          ∀ k i, lb.call k = some i → ∀ e, eds[i]? = some e → e.2.2 ≠ 0) ↔
        eds.Pairwise fun e e' => e.2.2 = 0 → e'.2.2 = 0) := by
  obtain ⟨ws, hcast, hws⟩ := exists_natWeights hnonneg
  obtain rfl : ws.sum = W := by omega
  have hlen : eds.length = ws.length := by simpa using congrArg List.length hcast
  obtain ⟨lb₀, lb, hins, hinit, _, hrv, hcounts⟩ := insertAll_initRate hmax hcast hpos hsum
  have hpy : (eds.map fun e => (⟨e.1, e.2.1, e.2.2⟩ : Python.EndPoint)).map
      Python.EndPoint.weight = ws.map Nat.cast := by
    rw [← hcast, List.map_map]
    rfl
  have hne : ws ≠ [] := by
    rintro rfl
    simp at hpos
  obtain ⟨py, hpy', hsearch⟩ := Python.EndPoints.ofSorted_searches hpy hne
  have hpick : ∀ k, (py.after k).pick = slot ws (k % ws.sum) := by
    intro k
    exact (hsearch.after (by simp [hlen]) hpos k).pick_eq hpos
  refine ⟨lb₀, lb, py, hins, hinit, hpy', ?_⟩
  have hsolid : Solid ws ↔ eds.Pairwise fun e e' => e.2.2 = 0 → e'.2.2 = 0 := by
    have hmap : (eds.map fun e => e.2.2).Pairwise (fun a b => a = 0 → b = 0) ↔
        (ws.map (Nat.cast : Nat → Int)).Pairwise fun a b => a = 0 → b = 0 := by rw [hcast]
    rw [List.pairwise_map, List.pairwise_map] at hmap
    simp only [Int.natCast_eq_zero] at hmap
    rw [solid_iff, hmap]
  rw [← hsolid]
  constructor
  · rintro ⟨hcall, _⟩
    apply hcounts.solid hrv hpos hsum
    intro k
    rw [hcall, hpick]
  · intro hs
    have htracks := hcounts.tracks (by rw [hrv, Nat.zero_mod, slot_zero hs hpos])
    have hcall := htracks.call_eq hs hpos hsum
    refine ⟨fun k => by rw [hcall, hpick], ?_⟩
    intro k i hi e he hzero
    rw [hcall, Option.some.injEq] at hi
    subst hi
    obtain ⟨hlt, hlo, hhi⟩ := slot_bounds (Nat.mod_lt k hpos)
    have hweight := congrArg (fun l => l[slot ws (k % ws.sum)]?) hcast
    simp only [List.getElem?_map, he, Option.map_some, hzero, List.getElem?_eq_getElem hlt,
      Option.some.injEq] at hweight
    rw [sum_take_succ hlt] at hhi
    omega

/-- Weights 3, 0 and 2: the fourth call goes to the endpoint of weight 0. -/
theorem nextIdx_zero_weight : ∃ lb₀ lb py,
    empty.insertAll [([1], 30000, 3), ([2], 30000, 0), ([3], 30000, 2)] = some lb₀ ∧
      lb₀.initRate = some lb ∧
      Python.EndPoints.ofSorted [⟨[1], 30000, 3⟩, ⟨[2], 30000, 0⟩, ⟨[3], 30000, 2⟩] = some py ∧
      lb.call 3 = some 1 ∧ (py.after 3).pick = 2 := by
  refine ⟨_, _, _, rfl, rfl, rfl, by decide, by decide⟩

/-- Weights 3, 2 and 0, in the order of ca.py. -/
theorem nextIdx_eq_pick_sorted : ∃ lb₀ lb py,
    empty.insertAll [([1], 30000, 3), ([3], 30000, 2), ([2], 30000, 0)] = some lb₀ ∧
      lb₀.initRate = some lb ∧
      Python.EndPoints.ofSorted [⟨[1], 30000, 3⟩, ⟨[3], 30000, 2⟩, ⟨[2], 30000, 0⟩] = some py ∧
      ∀ k, lb.call k = some (py.after k).pick := by
  have hsum : ([([1], 30000, 3), ([3], 30000, 2), ([2], 30000, 0)].map
      fun e : Bytes × Int × Int => e.2.2).sum = 5 := by decide
  obtain ⟨lb₀, lb, py, hins, hinit, hpy, hiff⟩ :=
    nextIdx_eq_pick_iff (by decide) (by decide) hsum (by decide) (by decide)
  exact ⟨lb₀, lb, py, hins, hinit, hpy, (hiff.mpr (by decide)).1⟩

end EtcdLb
end PyAgent
