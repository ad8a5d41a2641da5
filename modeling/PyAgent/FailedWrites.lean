import PyAgent.DubboClient
import PyAgent.PaClient
import Mathlib.Data.List.Range

/-!
# Writes that fail

The sending half of the two clients, with what libuv may answer: `uv_write` returns
an error, or it returns 0 and its callback gets a status later on. `handle_queue`
has taken the requests off the queue, encoded and freed them before it calls
`uv_write`, and neither the error nor the status leads to more than a message.
-/

namespace PyAgent.FailedWrites
set_option autoImplicit false

inductive Fate where
  | pending | done | failed
  deriving DecidableEq

/-- A call of `uv_write`: the requests in its buffers, the buffers, and what has become of it. -/
structure Write (α : Type) where
  requests : List (Nat × α)
  bufs : List Bytes
  fate : Fate

/-- The sending half of a client. A request carries the number of the fetch that brought it, and
`callbacks` holds for an id the fetch whose callback is filed under it. -/
structure Sender (α : Type) where
  connected : Bool
  queue : List (Nat × α)
  callbacks : Int → Option Nat
  fetched : Nat
  writes : List (Write α)
  informed : List Nat

/-- What the two clients do differently. The callbacks of a connection that comes up return the new
value of `connected`, or nothing where they leave before `handle_queue`. -/
structure Kind (α : Type) where
  id : α → Int
  encode : α → Bytes
  onConnect : Int → Bool → Option Bool
  onKeyWritten : Int → Bool → Option Bool

def dOnConnect (status : Int) (_connected : Bool) : Option Bool :=
  if status < 0 then none else some true

/-- The key is written here; what `uv_write` returns is printed. -/
def paOnConn (status : Int) (connected : Bool) : Option Bool :=
  if status < 0 then none else some connected

def paKeyWriteCb (status : Int) (_connected : Bool) : Option Bool :=
  if status ≠ 0 then none else some true

def dubboKind : Kind DubboRequest :=
  ⟨DubboRequest.id, dubboRequestEncode, dOnConnect, fun _ _ => none⟩

def paKind : Kind ActRequest := ⟨ActRequest.id, paActRequestEncode, paOnConn, paKeyWriteCb⟩

inductive Event (α : Type) where
  | connect (status ret : Int)
  | keyWritten (status ret : Int)
  | fetch (request : α) (ret : Int)
  | written (i : Nat) (status : Int)
  | answered (id : Int)

namespace Sender
variable {α : Type} (K : Kind α)

def create : Sender α := ⟨false, [], fun _ => none, 0, [], []⟩

/-- `handle_queue` and `_pa_handle_queue`, where `uv_write` returns `ret`. -/
def handleQueue (ret : Int) (x : Sender α) : Sender α :=
  if x.connected then
    if x.queue = [] then x
    else
      -- the loop has emptied the queue whatever uv_write returns
      let write : Write α :=
        ⟨x.queue, x.queue.map fun r => K.encode r.2, if ret = 0 then .pending else .failed⟩
      { x with queue := [], writes := x.writes ++ [write] }
  else x

/-- `dubbo_fetch` and `pa_client_fetch`, up to their call of `handle_queue`. -/
def push (request : α) (x : Sender α) : Sender α :=
  { x with
    queue := x.queue ++ [(x.fetched, request)]
    callbacks := Function.update x.callbacks (K.id request) (some x.fetched)
    fetched := x.fetched + 1 }

/-- The state in which an event calls `handle_queue`, and what `uv_write` will return there. -/
def entering (x : Sender α) : Event α → Option (Sender α × Int)
  | .connect status ret =>
    (K.onConnect status x.connected).map fun connected => ({ x with connected := connected }, ret)
  | .keyWritten status ret =>
    (K.onKeyWritten status x.connected).map fun connected =>
      ({ x with connected := connected }, ret)
  | .fetch request ret => some (x.push K request, ret)
  | _ => none

/-- `dubbo_write_cb` and `_pa_write_cb` print a status that is not 0. -/
def writeCb (i : Nat) (status : Int) (x : Sender α) : Option (Sender α) :=
  match x.writes[i]? with
  | none => none
  | some w =>
    if w.fate = .pending then
      let w' : Write α := { w with fate := if status = 0 then .done else .failed }
      some { x with writes := x.writes.set i w' }
    else none

/-- A response is read: its callback is called and forgotten. -/
def answer (id : Int) (x : Sender α) : Option (Sender α) :=
  (x.callbacks id).map fun t => { x with
    callbacks := Function.update x.callbacks id none
    informed := x.informed ++ [t] }

/-- `none` where the event cannot happen or where the code does not come back from it. -/
def step (x : Sender α) (e : Event α) : Option (Sender α) :=
  match e with
  | .written i status => x.writeCb i status
  | .answered id => x.answer id
  | e => some (((x.entering K e).map fun (y, ret) => y.handleQueue K ret).getD x)

/-! ## The law -/

/-- The request of this fetch is still in the queue, in a write that has not failed, or its callback
has been informed. -/
def Accounted (x : Sender α) (t : Nat) : Prop :=
  t ∈ x.queue.map Prod.fst ∨ (∃ w ∈ x.writes, w.fate ≠ .failed ∧ t ∈ w.requests.map Prod.fst) ∨
    t ∈ x.informed

def Kept (x : Sender α) : Prop := ∀ t < x.fetched, x.Accounted t

/-- Every request is accounted for after the step, and where `uv_write` has returned an error the
queue is what it was before the call. -/
structure Lawful (x : Sender α) (e : Event α) (x' : Sender α) : Prop where
  kept : x'.Kept
  restored : ∀ y ret, x.entering K e = some (y, ret) → y.connected = true → y.queue ≠ [] →
    ret ≠ 0 → x'.queue = y.queue

/-- `uv_write` returns 0 when it is called, and a write fails later only if all of its requests have
been answered. -/
structure WritesHold (x : Sender α) (e : Event α) : Prop where
  returns : ∀ y ret, x.entering K e = some (y, ret) → y.connected = true → y.queue ≠ [] → ret = 0
  completes : ∀ i status, e = .written i status → status ≠ 0 → ∀ w, x.writes[i]? = some w →
    ∀ t ∈ w.requests.map Prod.fst, t ∈ x.informed

/-- The steps of a run all satisfy `R`. -/
def Holds (R : Sender α → Event α → Sender α → Prop) : List (Event α) → Sender α → Prop
  | [], _ => True
  | e :: es, x => ∀ x', x.step K e = some x' → R x e x' ∧ Holds R es x'

/-! ## Every request is in one place -/

/-- The requests are numbered in the order in which they are written. -/
def Inv (x : Sender α) : Prop :=
  (x.writes.flatMap Write.requests).map Prod.fst ++ x.queue.map Prod.fst = List.range x.fetched

variable {K} {x x' : Sender α}

theorem Inv.handleQueue (hx : x.Inv) (ret : Int) : (x.handleQueue K ret).Inv := by
  unfold Sender.handleQueue
  split
  · split
    · exact hx
    · unfold Inv at hx ⊢
      rw [← hx]
      simp
  · exact hx

theorem Inv.push (hx : x.Inv) (request : α) : (x.push K request).Inv := by
  unfold Inv at hx ⊢
  simp only [Sender.push, List.map_append, List.map_cons, List.map_nil, List.range_succ, ← hx,
    List.append_assoc]

theorem entering_cases {e : Event α} {y : Sender α} {ret : Int}
    (h : x.entering K e = some (y, ret)) :
    (∃ connected, y = { x with connected := connected }) ∨ ∃ request, y = x.push K request := by
  cases e with
  | connect status _ =>
    obtain ⟨connected, _, heq⟩ := Option.map_eq_some_iff.mp h
    exact Or.inl ⟨connected, (congrArg Prod.fst heq).symm⟩
  | keyWritten status _ =>
    obtain ⟨connected, _, heq⟩ := Option.map_eq_some_iff.mp h
    exact Or.inl ⟨connected, (congrArg Prod.fst heq).symm⟩
  | fetch request _ => exact Or.inr ⟨request, (congrArg Prod.fst (Option.some.inj h)).symm⟩
  | written i status => cases h
  | answered id => cases h

theorem Inv.entering (hx : x.Inv) {e : Event α} {y : Sender α} {ret : Int}
    (h : x.entering K e = some (y, ret)) : y.Inv := by
  rcases entering_cases h with ⟨connected, rfl⟩ | ⟨request, rfl⟩
  · exact hx
  · exact hx.push request

theorem writeCb_cases {i : Nat} {status : Int} (h : x.writeCb i status = some x') :
    ∃ w, x.writes[i]? = some w ∧ w.fate = .pending ∧ x' = { x with
      writes := x.writes.set i { w with fate := if status = 0 then .done else .failed } } := by
  unfold writeCb at h
  split at h
  · cases h
  · rename_i w hw
    split at h
    · rename_i hfate
      exact ⟨w, hw, hfate, (Option.some.inj h).symm⟩
    · cases h

theorem Inv.writeCb (hx : x.Inv) {i : Nat} {status : Int} (h : x.writeCb i status = some x') :
    x'.Inv := by
  obtain ⟨w, hw, _, rfl⟩ := writeCb_cases h
  obtain ⟨hlt, rfl⟩ := List.getElem?_eq_some_iff.mp hw
  have hsame : ∀ w : Write α, w.requests = x.writes[i].requests →
      (x.writes.set i w).map Write.requests = x.writes.map Write.requests := by
    intro w hrequests
    have hlt' : i < (x.writes.map Write.requests).length := by simpa using hlt
    have hself := List.set_getElem_self hlt'
    rw [List.map_set, hrequests]
    rwa [List.getElem_map] at hself
  unfold Inv at hx ⊢
  simp only [List.flatMap_def] at hx ⊢
  rw [hsame, hx]
  rfl

theorem Inv.answer (hx : x.Inv) {id : Int} (h : x.answer id = some x') : x'.Inv := by
  obtain ⟨t, _, rfl⟩ := Option.map_eq_some_iff.mp h
  exact hx

theorem step_cases {e : Event α} (h : x.step K e = some x') :
    (∃ y ret, x.entering K e = some (y, ret) ∧ x' = y.handleQueue K ret) ∨
      (x.entering K e = none ∧ (∀ i status, e ≠ .written i status) ∧ x' = x) ∨
      (∃ i status, e = .written i status ∧ x.writeCb i status = some x') ∨
      ∃ id, e = .answered id ∧ x.answer id = some x' := by
  have hcalls : ∀ e : Event α, (∀ i status, e ≠ .written i status) →
      some (((x.entering K e).map fun (y, ret) => y.handleQueue K ret).getD x) = some x' →
      (∃ y ret, x.entering K e = some (y, ret) ∧ x' = y.handleQueue K ret) ∨
        (x.entering K e = none ∧ (∀ i status, e ≠ .written i status) ∧ x' = x) := by
    intro e he heq
    cases hentering : x.entering K e with
    | none =>
      rw [hentering] at heq
      exact Or.inr ⟨rfl, he, (Option.some.inj heq).symm⟩
    | some r =>
      rw [hentering] at heq
      exact Or.inl ⟨r.1, r.2, rfl, (Option.some.inj heq).symm⟩
  cases e with
  | written i status => exact Or.inr (Or.inr (Or.inl ⟨i, status, rfl, h⟩))
  | answered id => exact Or.inr (Or.inr (Or.inr ⟨id, rfl, h⟩))
  | connect status ret => exact (hcalls _ (by simp) h).imp_right Or.inl
  | keyWritten status ret => exact (hcalls _ (by simp) h).imp_right Or.inl
  | fetch request ret => exact (hcalls _ (by simp) h).imp_right Or.inl

theorem Inv.step (hx : x.Inv) {e : Event α} (h : x.step K e = some x') : x'.Inv := by
  rcases step_cases h with ⟨y, ret, hy, rfl⟩ | ⟨_, _, rfl⟩ | ⟨i, status, _, h⟩ | ⟨id, _, h⟩
  · exact (hx.entering hy).handleQueue ret
  · exact hx
  · exact hx.writeCb h
  · exact hx.answer h

/-! ## One step -/

theorem Kept.entering (hx : x.Kept) {e : Event α} {y : Sender α} {ret : Int}
    (h : x.entering K e = some (y, ret)) : y.Kept := by
  rcases entering_cases h with ⟨connected, rfl⟩ | ⟨request, rfl⟩
  · exact hx
  · intro t ht
    simp only [Sender.push] at ht
    by_cases hnew : t = x.fetched
    · left
      simp [Sender.push, hnew]
    · rcases hx t (by omega) with hqueue | hwrite | hinformed
      · left
        simp only [Sender.push, List.map_append]
        exact List.mem_append_left _ hqueue
      · exact Or.inr (Or.inl hwrite)
      · exact Or.inr (Or.inr hinformed)

theorem Kept.answer (hx : x.Kept) {id : Int} (h : x.answer id = some x') : x'.Kept := by
  obtain ⟨t, _, rfl⟩ := Option.map_eq_some_iff.mp h
  intro t' ht'
  rcases hx t' ht' with hqueue | hwrite | hinformed
  · exact Or.inl hqueue
  · exact Or.inr (Or.inl hwrite)
  · exact Or.inr (Or.inr (List.mem_append_left _ hinformed))

/-- `handle_queue` loses nothing, and leaves the queue as an error finds it, if and only if
`uv_write` is not called or returns 0. -/
theorem handleQueue_iff {y : Sender α} (hy : y.Kept) (ret : Int) :
    ((y.handleQueue K ret).Kept ∧ (y.connected = true → y.queue ≠ [] → ret ≠ 0 →
      (y.handleQueue K ret).queue = y.queue)) ↔
      (y.connected = true → y.queue ≠ [] → ret = 0) := by
  by_cases hcalled : y.connected = true ∧ y.queue ≠ []
  · obtain ⟨hconnected, hqueue⟩ := hcalled
    simp only [hconnected, hqueue, handleQueue, if_true, if_false, ne_eq, not_false_iff,
      true_implies]
    by_cases hret : ret = 0
    · refine iff_of_true ⟨?_, fun h => absurd hret h⟩ hret
      intro t ht
      rcases hy t ht with hmem | ⟨w, hw, hfate, hmem⟩ | hinformed
      · exact Or.inr (Or.inl ⟨_, List.mem_append_right _ (List.mem_singleton.mpr rfl),
          by simp [hret], hmem⟩)
      · exact Or.inr (Or.inl ⟨w, List.mem_append_left _ hw, hfate, hmem⟩)
      · exact Or.inr (Or.inr hinformed)
    · refine iff_of_false ?_ hret
      intro h
      exact hqueue (h.2 hret).symm
  · have hsame : y.handleQueue K ret = y := by
      unfold handleQueue
      split
      · rename_i hconnected
        split
        · rfl
        · rename_i hqueue
          exact absurd ⟨hconnected, hqueue⟩ hcalled
      · rfl
    rw [hsame]
    exact iff_of_true ⟨hy, fun _ _ _ => rfl⟩ fun hconnected hqueue =>
      absurd ⟨hconnected, hqueue⟩ hcalled

/-- What accounts for a request, with one of the writes apart. -/
theorem accounted_set_iff {i : Nat} (hi : i < x.writes.length) (w : Write α) (t : Nat) :
    Accounted { x with writes := x.writes.set i w } t ↔ t ∈ x.queue.map Prod.fst ∨
      (∃ j v, j ≠ i ∧ x.writes[j]? = some v ∧ v.fate ≠ .failed ∧ t ∈ v.requests.map Prod.fst) ∨
      (w.fate ≠ .failed ∧ t ∈ w.requests.map Prod.fst) ∨ t ∈ x.informed := by
  unfold Accounted
  constructor
  · intro h
    rcases h with hqueue | ⟨v, hv, hfate, ht⟩ | hinformed
    · exact Or.inl hqueue
    · obtain ⟨j, hj⟩ := List.mem_iff_getElem?.mp hv
      by_cases hji : j = i
      · subst hji
        rw [List.getElem?_set_self hi, Option.some.injEq] at hj
        subst hj
        exact Or.inr (Or.inr (Or.inl ⟨hfate, ht⟩))
      · rw [List.getElem?_set_ne (Ne.symm hji)] at hj
        exact Or.inr (Or.inl ⟨j, v, hji, hj, hfate, ht⟩)
    · exact Or.inr (Or.inr (Or.inr hinformed))
  · intro h
    rcases h with hqueue | ⟨j, v, hji, hj, hfate, ht⟩ | ⟨hfate, ht⟩ | hinformed
    · exact Or.inl hqueue
    · refine Or.inr (Or.inl ⟨v, ?_, hfate, ht⟩)
      rw [← List.getElem?_set_ne (Ne.symm hji) (a := w)] at hj
      exact List.mem_of_getElem? hj
    · exact Or.inr (Or.inl ⟨w, List.mem_of_getElem? (List.getElem?_set_self hi), hfate, ht⟩)
    · exact Or.inr (Or.inr hinformed)

/-- A request of one write is neither in the queue nor in another write. -/
theorem Inv.alone (hx : x.Inv) {i : Nat} {w : Write α} (hw : x.writes[i]? = some w) {t : Nat}
    (ht : t ∈ w.requests.map Prod.fst) : t < x.fetched ∧ t ∉ x.queue.map Prod.fst ∧
      ∀ j v, j ≠ i → x.writes[j]? = some v → t ∉ v.requests.map Prod.fst := by
  have hmem : t ∈ (x.writes.flatMap Write.requests).map Prod.fst := by
    obtain ⟨r, hr, rfl⟩ := List.mem_map.mp ht
    exact List.mem_map_of_mem (List.mem_flatMap.mpr ⟨w, List.mem_of_getElem? hw, hr⟩)
  have hnodup : ((x.writes.flatMap Write.requests).map Prod.fst ++
      x.queue.map Prod.fst).Nodup := by
    rw [hx]
    exact List.nodup_range
  obtain ⟨hwrites, _, happart⟩ := List.nodup_append.mp hnodup
  refine ⟨?_, fun hqueue => happart t hmem t hqueue rfl, ?_⟩
  · apply List.mem_range.mp
    rw [← hx]
    exact List.mem_append_left _ hmem
  · intro j v hji hv hin
    rw [List.map_flatMap, List.flatMap_def, List.nodup_flatten] at hwrites
    obtain ⟨hi, rfl⟩ := List.getElem?_eq_some_iff.mp hw
    obtain ⟨hj, rfl⟩ := List.getElem?_eq_some_iff.mp hv
    have hdisjoint := List.pairwise_iff_getElem.mp (List.pairwise_map.mp hwrites.2)
    rcases Nat.lt_or_gt_of_ne hji with hlt | hgt
    · exact hdisjoint j i hj hi hlt hin ht
    · exact hdisjoint i j hi hj hgt ht hin

/-- A completed write loses nothing if and only if it has not failed or all of its requests have
been answered. -/
theorem writeCb_iff (hi : x.Inv) (hx : x.Kept) {i : Nat} {status : Int}
    (h : x.writeCb i status = some x') : x'.Kept ↔ (status ≠ 0 → ∀ w, x.writes[i]? = some w →
      ∀ t ∈ w.requests.map Prod.fst, t ∈ x.informed) := by
  obtain ⟨w, hw, hpending, rfl⟩ := writeCb_cases h
  obtain ⟨hlt, hget⟩ := List.getElem?_eq_some_iff.mp hw
  have hsame : x.writes.set i w = x.writes := by
    rw [← hget, List.set_getElem_self hlt]
  constructor
  · intro hkept hstatus w' hw' t ht
    obtain rfl := Option.some.inj (hw.symm.trans hw')
    obtain ⟨hfetched, hqueue, hothers⟩ := hi.alone hw ht
    rcases (accounted_set_iff hlt _ t).mp (hkept t hfetched) with
      hin | ⟨j, v, hji, hj, _, hin⟩ | ⟨hfate, _⟩ | hinformed
    · exact absurd hin hqueue
    · exact absurd hin (hothers j v hji hj)
    · simp [hstatus] at hfate
    · exact hinformed
  · intro hinformed t ht
    apply (accounted_set_iff hlt _ t).mpr
    have hbefore : Accounted { x with writes := x.writes.set i w } t := by
      rw [hsame]
      exact hx t ht
    rcases (accounted_set_iff hlt w t).mp hbefore with hin | hother | ⟨_, hin⟩ | hdone
    · exact Or.inl hin
    · exact Or.inr (Or.inl hother)
    · by_cases hstatus : status = 0
      · exact Or.inr (Or.inr (Or.inl ⟨by simp [hstatus], hin⟩))
      · exact Or.inr (Or.inr (Or.inr (hinformed hstatus w hw t hin)))
    · exact Or.inr (Or.inr (Or.inr hdone))

theorem lawful_iff (hi : x.Inv) (hx : x.Kept) {e : Event α} (h : x.step K e = some x') :
    x.Lawful K e x' ↔ x.WritesHold K e := by
  rcases step_cases h with ⟨y, ret, hy, rfl⟩ | ⟨hnone, hwritten, rfl⟩ | ⟨i, status, rfl, hcb⟩ |
    ⟨id, rfl, hanswer⟩
  · have hiff := handleQueue_iff (K := K) (hx.entering hy) ret
    constructor
    · intro hlawful
      have hret := hiff.mp ⟨hlawful.kept, hlawful.restored y ret hy⟩
      refine ⟨?_, ?_⟩
      · intro y' ret' hy'
        obtain ⟨rfl, rfl⟩ := Prod.mk.inj (Option.some.inj (hy.symm.trans hy'))
        exact hret
      · rintro i status rfl
        cases hy
    · intro hholds
      obtain ⟨hkept, hrestored⟩ := hiff.mpr (hholds.returns y ret hy)
      refine ⟨hkept, ?_⟩
      intro y' ret' hy'
      obtain ⟨rfl, rfl⟩ := Prod.mk.inj (Option.some.inj (hy.symm.trans hy'))
      exact hrestored
  · apply iff_of_true
    · refine ⟨hx, ?_⟩
      intro y ret hy
      rw [hnone] at hy
      cases hy
    · refine ⟨?_, fun i status heq => absurd heq (hwritten i status)⟩
      intro y ret hy
      rw [hnone] at hy
      cases hy
  · have hiff := writeCb_iff hi hx hcb
    constructor
    · intro hlawful
      refine ⟨nofun, ?_⟩
      intro i' status' heq
      obtain ⟨rfl, rfl⟩ := Event.written.inj heq
      exact hiff.mp hlawful.kept
    · intro hholds
      exact ⟨hiff.mpr (hholds.completes i status rfl), nofun⟩
  · apply iff_of_true
    · exact ⟨hx.answer hanswer, nofun⟩
    · exact ⟨nofun, nofun⟩

/-! ## Whole runs -/

theorem holds_lawful_iff (es : List (Event α)) (hi : x.Inv) (hx : x.Kept) :
    Holds K (Lawful K) es x ↔ Holds K (fun x e _ => WritesHold K x e) es x := by
  induction es generalizing x with
  | nil => exact Iff.rfl
  | cons e es ih =>
    constructor
    · intro h x' hstep
      obtain ⟨hlawful, hrest⟩ := h x' hstep
      exact ⟨(lawful_iff hi hx hstep).mp hlawful, (ih (hi.step hstep) hlawful.kept).mp hrest⟩
    · intro h x' hstep
      obtain ⟨hholds, hrest⟩ := h x' hstep
      have hlawful := (lawful_iff hi hx hstep).mpr hholds
      exact ⟨hlawful, (ih (hi.step hstep) hlawful.kept).mpr hrest⟩

end Sender

/-! ## Clients whose writes succeed -/

/-- A client as DubboClient.lean and PaClient.lean have it, which knows of no failures: `hd` is what
was written before the first request. -/
structure Matches {α : Type} (x : Sender α) (hd : Bytes) (connected : Bool) (queue : List α)
    (socket : Bytes) (known : Int → Bool) : Prop where
  connected : connected = x.connected
  queue : queue = x.queue.map Prod.snd
  socket : socket = hd ++ (x.writes.flatMap Write.bufs).flatten
  known : ∀ id, known id = (x.callbacks id).isSome

section
variable {α χ γ : Type} {K : Kind α} {hd : Bytes} {known : Int → Bool}

theorem Matches.handleQueue {x : Sender α} {connected : Bool} {queue : List α} {socket : Bytes}
    (h : Matches x hd connected queue socket known) :
    Matches (x.handleQueue K 0) hd connected (if connected then [] else queue)
      (if connected then socket ++ (queue.map K.encode).flatten else socket) known := by
  obtain ⟨rfl, rfl, rfl, hknown⟩ := h
  unfold Sender.handleQueue
  by_cases hconnected : x.connected = true
  · by_cases hqueue : x.queue = []
    · simp only [hconnected, hqueue, if_true, List.map_nil, List.flatten_nil, List.append_nil]
      exact ⟨hconnected.symm, by simp [hqueue], rfl, hknown⟩
    · simp only [hconnected, hqueue, if_true, if_false]
      refine ⟨rfl, rfl, ?_, hknown⟩
      simp [Function.comp_def]
  · rw [if_neg hconnected, if_neg hconnected, if_neg hconnected]
    exact ⟨rfl, rfl, rfl, hknown⟩

theorem Matches.push {x : Sender α} {connected : Bool} {queue : List α} {socket : Bytes}
    (h : Matches x hd connected queue socket known) (request : α) :
    Matches (x.push K request) hd connected (queue ++ [request]) socket
      (Function.update known (K.id request) true) := by
  obtain ⟨rfl, rfl, rfl, hknown⟩ := h
  refine ⟨rfl, by simp [Sender.push], rfl, ?_⟩
  intro id
  by_cases hid : id = K.id request
  · simp [Sender.push, hid]
  · simp [Sender.push, hid, hknown]

theorem Matches.answer {x : Sender α} {connected : Bool} {queue : List α} {socket : Bytes}
    (h : Matches x hd connected queue socket known) {id : Int} (hid : known id = true) :
    ∃ x', x.step K (.answered id) = some x' ∧
      Matches x' hd connected queue socket (Function.update known id false) := by
  rw [h.known] at hid
  obtain ⟨t, ht⟩ := Option.isSome_iff_exists.mp hid
  have hstep : x.step K (.answered id) = some { x with
      callbacks := Function.update x.callbacks id none
      informed := x.informed ++ [t] } := by
    rw [Sender.step, Sender.answer, ht, Option.map_some]
  refine ⟨_, hstep, h.connected, h.queue, h.socket, ?_⟩
  intro id'
  by_cases hsame : id' = id
  · simp [hsame]
  · simp [hsame, h.known]

def MatchesDubbo (x : Sender DubboRequest) (client : DubboClient χ) : Prop :=
  Matches x [] client.connected client.queue client.socket fun id => (client.cbs id).isSome

theorem MatchesDubbo.handleQueue {x : Sender DubboRequest} {client : DubboClient χ}
    (h : MatchesDubbo x client) : MatchesDubbo (x.handleQueue dubboKind 0) client.handleQueue := by
  have hq := Matches.handleQueue (K := dubboKind) h
  unfold DubboClient.handleQueue MatchesDubbo
  split
  · rename_i hconnected
    simpa [hconnected, dubboKind] using hq
  · rename_i hconnected
    simpa [hconnected] using hq

theorem MatchesDubbo.dubboFetch {x : Sender DubboRequest} {client : DubboClient χ}
    (h : MatchesDubbo x client) (request : DubboRequest) (context : χ) :
    MatchesDubbo ((x.push dubboKind request).handleQueue dubboKind 0)
      (client.dubboFetch request .dubboCallback context) := by
  apply MatchesDubbo.handleQueue
  have hpush := Matches.push (K := dubboKind) h request
  refine ⟨hpush.connected, hpush.queue, hpush.socket, ?_⟩
  intro id
  have hupdate := Function.apply_update (fun _ => Option.isSome) client.cbs request.id
    (some DubboCallback.dubboCallback) id
  exact hupdate.trans (hpush.known id)

theorem MatchesDubbo.onConnect {x : Sender DubboRequest} {client : DubboClient χ}
    (h : MatchesDubbo x client) (status : Int) :
    ∃ x', x.step dubboKind (.connect status 0) = some x' ∧
      MatchesDubbo x' (client.onConnect status) := by
  refine ⟨_, rfl, ?_⟩
  simp only [Sender.entering, dubboKind, dOnConnect]
  unfold DubboClient.onConnect
  split
  · exact h
  · apply MatchesDubbo.handleQueue
    exact ⟨rfl, h.queue, h.socket, h.known⟩

theorem MatchesDubbo.answer {x : Sender DubboRequest} {client client' : DubboClient χ}
    (h : MatchesDubbo x client) {resp : DubboResponse}
    (hanswer : client.answer resp = some client') :
    ∃ x', x.step dubboKind (.answered resp.id) = some x' ∧ MatchesDubbo x' client' := by
  unfold DubboClient.answer at hanswer
  split at hanswer
  · rename_i context hcb _
    obtain rfl := Option.some.inj hanswer
    have hid : (fun id => (client.cbs id).isSome) resp.id = true := by simp [hcb]
    obtain ⟨x', hx', hmatches⟩ := Matches.answer (K := dubboKind) h hid
    refine ⟨x', hx', hmatches.connected, hmatches.queue, hmatches.socket, ?_⟩
    intro id
    have hupdate := Function.apply_update (fun _ => Option.isSome) client.cbs resp.id none id
    exact hupdate.trans (hmatches.known id)
  · cases hanswer

def MatchesPa (x : Sender ActRequest) (hd : Bytes) (client : PaClient γ χ) : Prop :=
  Matches x hd client.connected client.que client.socket fun id => (client.callbacks id).isSome

theorem MatchesPa.handleQueue {x : Sender ActRequest} {client : PaClient γ χ}
    (h : MatchesPa x hd client) : MatchesPa (x.handleQueue paKind 0) hd client.handleQueue := by
  have hq := Matches.handleQueue (K := paKind) h
  unfold PaClient.handleQueue MatchesPa
  split
  · rename_i hconnected
    simpa [hconnected, paKind] using hq
  · rename_i hconnected
    simpa [hconnected] using hq

theorem MatchesPa.fetch {x : Sender ActRequest} {client : PaClient γ χ} (h : MatchesPa x hd client)
    (request : ActRequest) (cb : γ) (context : χ) :
    MatchesPa ((x.push paKind request).handleQueue paKind 0) hd
      (client.fetch request cb context) := by
  apply MatchesPa.handleQueue
  have hpush := Matches.push (K := paKind) h request
  refine ⟨hpush.connected, hpush.queue, hpush.socket, ?_⟩
  intro id
  have hupdate := Function.apply_update (fun _ => Option.isSome) client.callbacks request.id
    (some cb) id
  exact hupdate.trans (hpush.known id)

/-- The key is written before anything else. -/
theorem MatchesPa.onConn {x : Sender ActRequest} {client : PaClient γ χ} (h : MatchesPa x [] client)
    (hempty : x.writes = []) {status : Int} (hstatus : 0 ≤ status) :
    ∃ x', x.step paKind (.connect status 0) = some x' ∧
      MatchesPa x' (paEncodeActKey client.key) (client.onConn status) := by
  refine ⟨_, rfl, ?_⟩
  have hneg : ¬ status < 0 := by omega
  simp only [Sender.entering, paKind, paOnConn, PaClient.onConn, if_neg hneg]
  apply MatchesPa.handleQueue
  have hsocket := h.socket
  rw [hempty] at hsocket
  exact ⟨h.connected, h.queue, by simp [hempty, hsocket], h.known⟩

theorem MatchesPa.answer {x : Sender ActRequest} {client client' : PaClient γ χ}
    (h : MatchesPa x hd client) {resp : ActResponse} (hanswer : client.answer resp = some client') :
    ∃ x', x.step paKind (.answered resp.id) = some x' ∧ MatchesPa x' hd client' := by
  unfold PaClient.answer at hanswer
  split at hanswer
  · rename_i cb context hcb _
    obtain rfl := Option.some.inj hanswer
    have hid : (fun id => (client.callbacks id).isSome) resp.id = true := by simp [hcb]
    obtain ⟨x', hx', hmatches⟩ := Matches.answer (K := paKind) h hid
    refine ⟨x', hx', hmatches.connected, hmatches.queue, hmatches.socket, ?_⟩
    intro id
    have hupdate := Function.apply_update (fun _ => Option.isSome) client.callbacks resp.id none id
    exact hupdate.trans (hmatches.known id)
  · cases hanswer

theorem MatchesPa.keyWriteCb {x : Sender ActRequest} {client : PaClient γ χ}
    (h : MatchesPa x hd client) (status : Int) :
    ∃ x', x.step paKind (.keyWritten status 0) = some x' ∧
      MatchesPa x' hd (client.keyWriteCb status) := by
  refine ⟨_, rfl, ?_⟩
  simp only [Sender.entering, paKind, paKeyWriteCb]
  unfold PaClient.keyWriteCb
  split
  · exact h
  · apply MatchesPa.handleQueue
    exact ⟨rfl, h.queue, h.socket, h.known⟩

end

/-! ## Runs of both clients -/

theorem create_inv (α : Type) : (Sender.create : Sender α).Inv := rfl

theorem create_kept (α : Type) : (Sender.create : Sender α).Kept := nofun

/-- Both clients lose no request in a run if and only if no write of it fails. -/
theorem no_request_lost_iff (es : List (Event DubboRequest)) (es' : List (Event ActRequest)) :
    (Sender.Holds dubboKind (Sender.Lawful dubboKind) es Sender.create ↔
      Sender.Holds dubboKind (fun x e _ => x.WritesHold dubboKind e) es Sender.create) ∧
    (Sender.Holds paKind (Sender.Lawful paKind) es' Sender.create ↔
      Sender.Holds paKind (fun x e _ => x.WritesHold paKind e) es' Sender.create) :=
  ⟨Sender.holds_lawful_iff es (create_inv _) (create_kept _),
    Sender.holds_lawful_iff es' (create_inv _) (create_kept _)⟩

/-- `uv_write` fails under the only request of a Dubbo client; a write of a `pa_client` fails after
`uv_write` has returned 0. -/
theorem request_lost :
    ¬ Sender.Holds dubboKind (Sender.Lawful dubboKind)
        [.connect 0 0, .fetch (dubboRequestFromAct { id := 1, pLen := 0, parameter := [] }) (-32)]
        Sender.create ∧
      ¬ Sender.Holds paKind (Sender.Lawful paKind)
        [.connect 0 0, .keyWritten 0 0, .fetch { id := 1, pLen := 0, parameter := [] } 0,
          .written 0 (-104)]
        Sender.create := by
  constructor
  · intro h
    have hlawful := ((h _ rfl).2 _ rfl).1
    have hqueue := hlawful.restored _ _ rfl rfl (List.cons_ne_nil _ _) (by decide)
    cases hqueue
  · intro h
    have hlawful := ((((h _ rfl).2 _ rfl).2 _ rfl).2 _ rfl).1
    rcases hlawful.kept 0 (by decide) with hqueue | ⟨w, hw, hfate, _⟩ | hinformed
    · cases hqueue
    · obtain rfl := List.mem_singleton.mp hw
      exact hfate rfl
    · cases hinformed

end PyAgent.FailedWrites
