import PyAgent.GatewayRuns
import PyAgent.Streaming.Regroup
import Mathlib.Data.DFinsupp.WellFounded

/-!
# Every POST gets its own response

Whatever the agents, the providers and the HTTP clients do in between, the responses on
a HTTP connection are what `act_done_callback` makes of the answers to the bodies that
came on it (`http_of_reached`); and when nothing is left to do there is one for each of
them.
-/

namespace PyAgent
set_option autoImplicit false

open Streaming

namespace Gateway
variable {χ : Type} {S : Nat} {serves : Fin 10 → Bytes → Bytes → Prop} {g g' : Gateway χ}
  {func : Bytes → Nat → Nat} {lb₀ : EtcdLb}

section

/-! ## From connections to HTTP connections -/

/-- What a body asks of the connection it goes to. -/
def Post.asks (post : Post χ) : Fin 10 × ActReuseKey × ClientRuns.Call Unit χ :=
  (post.eidx, post.key, post.call)

def ServedAt (serves : Fin 10 → Bytes → Bytes → Prop)
    (e : Fin 10 × ActReuseKey × ClientRuns.Call Unit χ) : Bytes → Prop :=
  Mesh.Serves (serves e.1) e.2

section
variable (hm : Inv serves S func lb₀ g) {i : Nat}
include hm

theorem Inv.posts_eq_nil (hi : g.ca.created[i]? = none) : ownedBy Post.client i g.posts = [] := by
  apply ownedBy_eq_nil
  rintro post hpost rfl
  have hline := (hm.posts post hpost).line
  rw [hi] at hline
  cases hline

theorem Inv.made_eq_nil (hi : g.ca.created[i]? = none) : ownedBy Prod.fst i g.made = [] := by
  apply ownedBy_eq_nil
  rintro c hc rfl
  have hlt := hm.made c hc
  rw [List.getElem?_eq_none_iff] at hi
  omega

variable {p : Fin 10 × ActReuseKey} (hi : g.ca.created[i]? = some p)
include hi

/-- The bodies that went over a connection went to its endpoint, under its key. -/
theorem Inv.eq_of_mem {post : Post χ} (hpost : post ∈ ownedBy Post.client i g.posts) :
    p = (post.eidx, post.key) := by
  obtain ⟨hmem, rfl⟩ := mem_ownedBy.mp hpost
  exact Option.some.inj (hi.symm.trans (hm.posts post hmem).line)

theorem Inv.calls_at : (g.meshes p.1).calls i =
    (ownedBy Post.client i g.posts).map fun post => (post.key, post.call) := by
  obtain ⟨k, hk, hkey⟩ := (hm.endpoint p.1).opened i p.2 hi
  rw [Mesh.calls, hk, Option.elim_some, (hm.endpoint p.1).issued i k hk, List.map_map]
  apply List.map_congr_left
  intro post hpost
  rw [Function.comp_apply, hkey, hm.eq_of_mem hi hpost]

theorem Inv.made_at : (g.meshes p.1).made i = (ownedBy Prod.fst i g.made).map Prod.snd := by
  obtain ⟨k, hk, _⟩ := (hm.endpoint p.1).opened i p.2 hi
  rw [Mesh.made, hk, Option.elim_some]
  exact (hm.endpoint p.1).calls i k hk

end

/-- The connections of all endpoints as remote calls, given those of each endpoint. -/
theorem Inv.lines (hm : Inv serves S func lb₀ g)
    {rs : Fin 10 → Remote Nat (ActReuseKey × ClientRuns.Call Unit χ) Bytes}
    (hsound : ∀ e, (rs e).Sound (Mesh.Serves (serves e)))
    (hshows : ∀ e, Mesh.Shows (g.meshes e) (rs e)) :
    ∃ r : Remote Nat (Fin 10 × ActReuseKey × ClientRuns.Call Unit χ) Bytes,
      r.Sound (ServedAt serves) ∧
      (∀ i, r.issued i = (ownedBy Post.client i g.posts).map Post.asks) ∧
      (∀ i, List.Forall₂ (fun answer made => ∃ post, (ownedBy Post.client i g.posts)[answer.1]? =
        some post ∧ made = Mesh.handed (post.key, post.call) answer.2)
          (r.answers i) ((ownedBy Prod.fst i g.made).map Prod.snd)) ∧
      ((∀ e i, ∀ j < ((rs e).issued i).length, j ∈ ((rs e).answers i).map Prod.fst) →
        ∀ i, ∀ j < (r.issued i).length, j ∈ (r.answers i).map Prod.fst) := by
  let issued (i : Nat) : List (Fin 10 × ActReuseKey × ClientRuns.Call Unit χ) :=
    match g.ca.created[i]? with
    | some p => ((rs p.1).issued i).map fun c => (p.1, c)
    | none => []
  let answers (i : Nat) : List (Nat × Bytes) :=
    match g.ca.created[i]? with
    | some p => (rs p.1).answers i
    | none => []
  have hissued : ∀ i p, g.ca.created[i]? = some p →
      issued i = ((rs p.1).issued i).map fun c => (p.1, c) := by
    intro i p hi
    simp only [issued, hi]
  have hanswers : ∀ i p, g.ca.created[i]? = some p → answers i = (rs p.1).answers i := by
    intro i p hi
    simp only [answers, hi]
  have hcalls : ∀ i p, g.ca.created[i]? = some p → (rs p.1).issued i =
      (ownedBy Post.client i g.posts).map fun post => (post.key, post.call) :=
    fun i p hi => (congrFun (hshows p.1).issued i).trans (hm.calls_at hi)
  refine ⟨⟨issued, answers⟩, ⟨?_, ?_⟩, ?_, ?_, ?_⟩
  · intro i
    cases hi : g.ca.created[i]? with
    | none => simp [answers, hi]
    | some p =>
      simp only [hanswers i p hi]
      exact (hsound p.1).once i
  · intro i j v hmem
    cases hi : g.ca.created[i]? with
    | none => simp [answers, hi] at hmem
    | some p =>
      simp only [hanswers i p hi] at hmem
      obtain ⟨c, hc, hserves⟩ := (hsound p.1).right i j v hmem
      refine ⟨(p.1, c), ?_, hserves⟩
      simp only [hissued i p hi, List.getElem?_map, hc]
      rfl
  · intro i
    cases hi : g.ca.created[i]? with
    | none => simp [issued, hi, hm.posts_eq_nil hi]
    | some p =>
      simp only [hissued i p hi, hcalls i p hi, List.map_map]
      apply List.map_congr_left
      intro post hpost
      rw [Function.comp_apply, Post.asks, hm.eq_of_mem hi hpost]
  · intro i
    cases hi : g.ca.created[i]? with
    | none => simp [answers, hi, hm.made_eq_nil hi]
    | some p =>
      simp only [hanswers i p hi]
      rw [← hm.made_at hi]
      apply ((hshows p.1).answers i).imp
      rintro ⟨j, v⟩ made ⟨call, hcall, rfl⟩
      rw [← (hshows p.1).issued, hcalls i p hi, List.getElem?_map,
        Option.map_eq_some_iff] at hcall
      obtain ⟨post, hpost, rfl⟩ := hcall
      exact ⟨post, hpost, rfl⟩
  · intro hall i j hj
    cases hi : g.ca.created[i]? with
    | none => simp [issued, hi] at hj
    | some p =>
      simp only [hissued i p hi, List.length_map] at hj
      simp only [hanswers i p hi]
      exact hall p.1 i j hj

/-- Seen from the HTTP connections, the whole of it is nothing but remote calls; they lack no answer
that a connection to an endpoint has. -/
theorem Inv.http [DecidableEq χ] (hm : Inv serves S func lb₀ g)
    {rs : Fin 10 → Remote Nat (ActReuseKey × ClientRuns.Call Unit χ) Bytes}
    (hsound : ∀ e, (rs e).Sound (Mesh.Serves (serves e)))
    (hshows : ∀ e, Mesh.Shows (g.meshes e) (rs e)) :
    ∃ r, Remote.Reached (Serves func serves) r ∧ Shows lb₀ g r ∧
      ((∀ e i, ∀ j < ((rs e).issued i).length, j ∈ ((rs e).answers i).map Prod.fst) →
        ∀ c, ∀ j < (r.issued c).length, j ∈ (r.answers c).map Prod.fst) := by
  obtain ⟨r, hr, hissued, hanswers, hcomplete⟩ := hm.lines hsound hshows
  obtain ⟨answers, hlog, hmade, hall⟩ := exists_log hr hissued hanswers
  have hserves : Log.Sound (Serves func serves) ⟨g.posts, answers⟩ := by
    refine ⟨hlog.once, ?_⟩
    intro a ha
    obtain ⟨post, hpost, hserves⟩ := hlog.right a ha
    obtain ⟨f, hf, hkey, hrequest⟩ := (hm.posts post (List.mem_of_getElem? hpost)).form
    refine ⟨post, hpost, f, post.key, hf, hkey, ?_⟩
    rw [← hrequest]
    exact hserves
  have hhanded : List.Forall₂ (fun (a : Nat × Bytes) (m : Nat × Unit × ActResponse × χ) =>
      ∃ post, g.posts[a.1]? = some post ∧ m.2.2.2 = post.context ∧
        m.2 = Mesh.handed (post.key, post.call) a.2) answers g.made := by
    apply hmade.imp
    rintro a m ⟨post, hpost, hline, post', hpost', hhanded⟩
    have hrank : (ownedBy Post.client post.client g.posts)[rank Post.client post.client g.posts
        a.1]? = some post := ownedBy_rank hpost rfl
    rw [hline, hpost', Option.some.injEq] at hrank
    subst hrank
    exact ⟨post', hpost, by rw [hhanded]; rfl, hhanded⟩
  refine ⟨Log.remote Post.context ⟨g.posts, answers⟩, hserves.reached, ⟨hm.balanced, rfl, ?_⟩,
    fun hlines c j hj => Log.answered_all (hall (hcomplete hlines)) hj⟩
  intro c
  rw [responses, List.forall₂_map_right_iff]
  apply (Log.forall₂_remote (R := fun post payload m =>
    m.2 = Mesh.handed (post.key, post.call) payload) hhanded c).imp
  rintro a m ⟨post, hpost, hm⟩
  exact ⟨post, hpost, by rw [hm]; rfl⟩

/-- Everything but new connections and new bodies. -/
def Next (serves : Fin 10 → Bytes → Bytes → Prop) (S : Nat) (g g' : Gateway χ) : Prop :=
  ∃ eidx ev, Mesh.Allowed (serves eidx) (g.meshes eidx) ev ∧ Mesh.Moves (g.meshes eidx) ev ∧
    step S g (.mesh eidx ev) = some g'

/-- One mesh moves, and the others do not. -/
theorem Next.exists_mesh (hnext : Next serves S g g') : ∃ eidx mesh,
    Mesh.Next (serves eidx) S (g.meshes eidx) mesh ∧
      g'.meshes = Function.update g.meshes eidx mesh ∧ g'.posts = g.posts := by
  obtain ⟨eidx, ev, hallowed, hmoves, hstep⟩ := hnext
  cases ev with
  | create i key => exact hmoves.elim
  | fetch i call => exact hmoves.elim
  | dubboConnect status => exact hmoves.elim
  | paConn i status => exact hmoves.elim
  | paKeyWritten i status => exact hmoves.elim
  | _ =>
    obtain ⟨mesh, hmesh, hg⟩ := Option.bind_eq_some_iff.mp hstep
    obtain rfl := Option.some.inj hg
    exact ⟨eidx, mesh, ⟨_, hallowed, hmoves, hmesh⟩, rfl, rfl⟩

theorem exists_next {eidx : Fin 10} {mesh : Mesh Nat Unit χ}
    (h : Mesh.Next (serves eidx) S (g.meshes eidx) mesh) : ∃ g', Next serves S g g' := by
  obtain ⟨ev, hallowed, hmoves, hmesh⟩ := h
  have hstep : ∃ g', step S g (.mesh eidx ev) = some g' := by
    cases ev with
    | create i key => exact hmoves.elim
    | fetch i call => exact hmoves.elim
    | dubboConnect status => exact hmoves.elim
    | paConn i status => exact hmoves.elim
    | paKeyWritten i status => exact hmoves.elim
    | _ => exact ⟨_, Option.bind_eq_some_iff.mpr ⟨mesh, hmesh, rfl⟩⟩
  obtain ⟨g', hg'⟩ := hstep
  exact ⟨g', eidx, ev, hallowed, hmoves, hg'⟩

/-- What the moves of a mesh keep, all meshes keep. -/
theorem Next.all {P : Fin 10 → Mesh Nat Unit χ → Prop}
    (hP : ∀ e m m', Mesh.Next (serves e) S m m' → P e m → P e m') (hnext : Next serves S g g')
    (hg : ∀ e, P e (g.meshes e)) : ∀ e, P e (g'.meshes e) := by
  obtain ⟨eidx, mesh, hmesh, hmeshes, _⟩ := hnext.exists_mesh
  intro e
  rw [hmeshes]
  by_cases he : e = eidx
  · subst he
    rw [Function.update_self]
    exact hP e _ _ hmesh (hg e)
  · rw [Function.update_of_ne he]
    exact hg e

theorem acc_of_supports {F : Fin 10 → Finset Nat}
    (hF : ∀ e i k, (g.meshes e).clients i = some k → i ∈ F e) :
    Acc (fun g' g => Next serves S g g') g := by
  have hwf : WellFounded (Pi.Lex (· < ·) fun {_ : Fin 10} => Mesh.Less) :=
    Pi.Lex.wellFounded (· < ·) fun _ => Mesh.less_wf
  induction hn : (fun e => Mesh.todo (F e) (g.meshes e)) using hwf.induction generalizing g with
  | _ n ih =>
    constructor
    intro g' hnext
    obtain ⟨eidx, mesh, hmesh, hmeshes, _⟩ := hnext.exists_mesh
    refine ih (fun e => Mesh.todo (F e) (g'.meshes e)) ?_ ?_ rfl
    · rw [← hn, hmeshes]
      refine ⟨eidx, ?_, ?_⟩
      · intro e he
        dsimp only
        rw [Function.update_of_ne (Fin.ne_of_lt he)]
      · dsimp only
        rw [Function.update_self]
        exact Mesh.todo_lt (hF eidx) hmesh
    · refine hnext.all (P := fun e m => ∀ i k, m.clients i = some k → i ∈ F e) ?_ hF
      intro e m m' hmm hm i k hk
      obtain ⟨k₀, hk₀, _⟩ := hmm.client hk
      exact hm i k₀ hk₀

/-- An endpoint that is used is up, and nothing sent to it is longer than a buffer. -/
def Ready (cap : Nat) (m : Mesh Nat Unit χ) : Prop :=
  ∀ i k, m.clients i = some k → Mesh.Up m ∧ Mesh.Fits cap m

theorem answered_of_ready {serves : Bytes → Bytes → Prop} {m : Mesh Nat Unit χ} (hS : 3 ≤ S)
    (hcap : toUInt32 S < 2147483648) (hserves : Mesh.Answers serves (toUInt32 S))
    (h : Mesh.Reached serves S m) (hready : Ready (toUInt32 S) m)
    (hstuck : ∀ m', ¬ Mesh.Next serves S m m') : Mesh.Answered serves m := by
  obtain ⟨y, hy, hremote⟩ := Mesh.exists_inv_of_reached hS hcap h
  by_cases hused : ∃ i k, m.clients i = some k
  · obtain ⟨i, k, hk⟩ := hused
    obtain ⟨hup, hfits⟩ := hready i k hk
    exact hy.all_answered hremote hup h (hy.done hS hcap hup hfits hserves h hstuck)
  · have hnone : ∀ i, m.clients i = none :=
      fun i => Option.eq_none_iff_forall_ne_some.mpr fun k hk => hused ⟨i, k, hk⟩
    refine ⟨⟨_, hremote, hy.shows, ?_⟩, fun i k id hk => absurd ⟨i, k, hk⟩ hused⟩
    intro i j hj
    simp [Mesh.remote, Mesh.calls, hnone i] at hj

/-- With all connections up and nothing that is too long for a buffer, whatever happens and in
whichever order: without new bodies it comes to an end, and then each of them has its response. -/
theorem responded_of_reached [DecidableEq χ] (hS : 3 ≤ S) (hcap : toUInt32 S < 2147483648)
    (hserves : ∀ e, Mesh.Answers (serves e) (toUInt32 S)) (h : Reached serves S func lb₀ g)
    (hready : ∀ e, Ready (toUInt32 S) (g.meshes e)) :
    Acc (fun g' g => Next serves S g g') g ∧
      ∀ g', Relation.ReflTransGen (Next serves S) g g' → (∀ g'', ¬ Next serves S g' g'') →
        g'.posts = g.posts ∧ ∃ r, Remote.Reached (Serves func serves) r ∧ Shows lb₀ g' r ∧
          ∀ c, ∀ j < (r.issued c).length, j ∈ (r.answers c).map Prod.fst := by
  have hm := inv_of_reached hS hcap h
  constructor
  · choose F hF using fun e => Mesh.exists_support (hm.endpoint e).reached
    exact acc_of_supports hF
  · intro g' hrun hstuck
    have hall : Reached serves S func lb₀ g' ∧ (∀ e, Ready (toUInt32 S) (g'.meshes e)) ∧
        g'.posts = g.posts := by
      clear hstuck
      induction hrun with
      | refl => exact ⟨h, hready, rfl⟩
      | tail _ hnext ih =>
        obtain ⟨hreached, hready, hposts⟩ := ih
        obtain ⟨_, _, _, _, hposts'⟩ := hnext.exists_mesh
        obtain ⟨eidx, ev, hallowed, _, hstep⟩ := id hnext
        have hallowed' : Allowed serves _ (.mesh eidx ev) := ⟨hallowed.1, trivial, trivial⟩
        refine ⟨hreached.tail ⟨.mesh eidx ev, hallowed', hstep⟩, ?_, hposts'.trans hposts⟩
        refine hnext.all (P := fun _ => Ready (toUInt32 S)) ?_ hready
        intro e m m' hmm hm i k' hk'
        obtain ⟨k, hk, _⟩ := hmm.client hk'
        obtain ⟨hup, hfits⟩ := hm i k hk
        exact ⟨hmm.up hup, hmm.fits hfits⟩
    obtain ⟨hreached', hready', hposts⟩ := hall
    have hm' := inv_of_reached hS hcap hreached'
    have hanswered : ∀ e, Mesh.Answered (serves e) (g'.meshes e) := by
      intro e
      apply answered_of_ready hS hcap (hserves e) (hm'.endpoint e).reached (hready' e)
      exact fun mesh hmesh => (exists_next hmesh).elim hstuck
    choose rs hrs hshows hcomplete using fun e => (hanswered e).all
    obtain ⟨r, hr, hshows', hall⟩ := hm'.http (fun e => (hrs e).sound) hshows
    exact ⟨hposts, r, hr, hshows', hall hcomplete⟩

end

/-! ## Two endpoints -/

/-- `Regular`, by computation, where the providers have one answer to each body. -/
def checkRegular (answer : Bytes → Bytes) (g : Gateway χ) : Event χ → Bool
  | .post _ data id => (readForm g.ca.hashes data).all fun f =>
    decide (0 ≤ id ∧ id < 2147483648 ∧ (f.request id).Wf) && f.reuseKey.any fun key =>
      decide (key.Wf ∧ dubboTotalLen ((f.request id).under key) < 2147483648)
  | .mesh eidx e => Mesh.checkRegular answer (g.meshes eidx) e

/-- `OwnKeys`, by computation. -/
def checkKeys (g : Gateway χ) : Event χ → Bool
  | .post _ data _ => g.lb.nextIdx.all fun turn =>
    if h : turn.2 < 10 then
      (readForm g.ca.hashes data).all fun f =>
        (g.ca.paClientMaps ⟨turn.2, h⟩ (actKeyHash g.ca.hashes f)).all fun i =>
          f.reuseKey.any fun key => decide (g.ca.created[i]? = some (⟨turn.2, h⟩, key))
    else true
  | .mesh _ _ => true

/-- `FreshIds`, by computation. -/
def checkFresh (g : Gateway χ) : Event χ → Bool
  | .post _ _ id => g.lb.nextIdx.all fun turn =>
    if h : turn.2 < 10 then
      (List.range g.ca.created.length).all fun i =>
        ((g.meshes ⟨turn.2, h⟩).clients i).all fun k => (k.env.callbacks id).isNone
    else true
  | .mesh _ _ => true

def checkAllowed (answer : Bytes → Bytes) (g : Gateway χ) (e : Event χ) : Bool :=
  checkRegular answer g e && checkKeys g e && checkFresh g e

/-- The providers of all endpoints have one answer to each body. -/
def answering (answer : Bytes → Bytes) (_ : Fin 10) : Bytes → Bytes → Prop := Mesh.answering answer

section
variable {answer : Bytes → Bytes} {e : Event χ}

theorem regular_of_check (h : checkRegular answer g e = true) : Regular (answering answer) g e := by
  cases e with
  | mesh eidx ev => exact Mesh.regular_of_check h
  | post context data id =>
    intro f hf
    simp only [checkRegular, hf, Option.all_some, Bool.and_eq_true, decide_eq_true_eq,
      Option.any_eq_true] at h
    obtain ⟨⟨hnonneg, hlt, hwf⟩, key, hkey, hkeyWf, htotal⟩ := h
    exact ⟨hnonneg, hlt, hwf, key, hkey, hkeyWf, htotal⟩

theorem ownKeys_of_check (h : checkKeys g e = true) : OwnKeys g e := by
  cases e with
  | mesh eidx ev => trivial
  | post context data id =>
    intro lb eidx f i hlb hf hi
    simp only [checkKeys, hlb, Option.all_some, dif_pos eidx.isLt, hf, hi, Option.any_eq_true,
      decide_eq_true_eq] at h
    exact h

theorem fresh_of_check (hg : g.Tracked) (h : checkFresh g e = true) : FreshIds g e := by
  cases e with
  | mesh eidx ev => trivial
  | post context data id =>
    intro lb eidx i k hlb hk
    simp only [checkFresh, hlb, Option.all_some, dif_pos eidx.isLt] at h
    have hfree := List.all_eq_true.mp h i (List.mem_range.mpr (hg eidx i k hk))
    rw [hk, Option.all_some] at hfree
    exact Option.isNone_iff_eq_none.mp hfree

theorem regular_ownKeys_of_check (h : (checkRegular answer g e && checkKeys g e) = true) :
    Regular (answering answer) g e ∧ OwnKeys g e := by
  rw [Bool.and_eq_true] at h
  exact ⟨regular_of_check h.1, ownKeys_of_check h.2⟩

theorem regular_fresh_of_check (hg : g.Tracked)
    (h : (checkRegular answer g e && checkFresh g e) = true) :
    Regular (answering answer) g e ∧ FreshIds g e := by
  rw [Bool.and_eq_true] at h
  exact ⟨regular_of_check h.1, fresh_of_check hg h.2⟩

end

theorem tracked_of_runs {allowed : Gateway χ → Event χ → Prop}
    (h : Runs allowed (step S) (start χ func lb₀) g) : g.Tracked :=
  h.invariant (fun _ _ _ hk => nomatch hk) fun _ _ _ hg _ hstep => hg.step hstep

theorem allowed_of_check {answer : Bytes → Bytes} {e : Event χ}
    (hg : Reached (answering answer) S func lb₀ g) (h : checkAllowed answer g e = true) :
    Allowed (answering answer) g e := by
  simp only [checkAllowed, Bool.and_eq_true] at h
  exact ⟨regular_of_check h.1.1, ownKeys_of_check h.1.2, fresh_of_check (tracked_of_runs hg) h.2⟩

def twoEndpoints : EtcdLb :=
  ⟨[{ host := [], port := 30000, weight := 1 }, { host := [], port := 30001, weight := 1 }],
    [1, 2], 2, 0, 0, 2⟩

def oneEndpoint : EtcdLb := ⟨[{ host := [], port := 30000, weight := 1 }], [1], 1, 0, 0, 1⟩

/-- A provider whose answers tell bodies apart, in two lines. -/
def hashDigit (body : Bytes) : Bytes :=
  [49, 10, UInt8.ofNat (48 + bkdrHash body 0 % 10), 10]

def form (interface method parameter : String) : Bytes :=
  ascii ("interface=" ++ interface ++ "&method=" ++ method ++
    "&parameterTypesString=S&parameter=" ++ parameter)

def first : Fin 10 := ⟨0, by decide⟩

def second : Fin 10 := ⟨1, by decide⟩

/-- Two HTTP connections, two bodies, and the connections that were created for them. -/
def twoPosts : List (Event Bool) :=
  [.post false (form "I" "h" "a") 7, .post true (form "I" "h" "b") 7,
    .mesh first (.paConn 0 0), .mesh second (.paConn 1 0), .mesh first (.paKeyWritten 0 0),
    .mesh second (.paKeyWritten 1 0), .mesh first (.dubboConnect 0), .mesh second (.dubboConnect 0)]

def twoArrivals : List (Event Bool) :=
  [.mesh first (.accept 0 Closing.emptyContext), .mesh second (.accept 1 Closing.emptyContext),
    .mesh first (.actRead 0 0 100), .mesh second (.actRead 1 0 100)]

def twoAnswers : List (Event Bool) :=
  [.mesh second (.respond 0 (0, 0) [49, 10, 50, 10]),
    .mesh first (.respond 0 (0, 0) [49, 10, 57, 10]), .mesh second (.dubboRead 0 100),
    .mesh first (.dubboRead 0 100), .mesh second (.paRead 1 0 100),
    .mesh first (.paRead 0 0 100)]

/-- Two bodies that go over one connection to the only endpoint. -/
def samePosts (data data' : Bytes) (id id' : Int) : List (Event Bool) :=
  [.post false data id, .post true data' id', .mesh first (.paConn 0 0),
    .mesh first (.paKeyWritten 0 0), .mesh first (.dubboConnect 0),
    .mesh first (.accept 0 Closing.emptyContext), .mesh first (.actRead 0 0 200)]

/-- Of two answers of four bytes, the provider agent has only read the first. -/
def firstOnly (payload payload' : Bytes) : List (Event Bool) :=
  [.mesh first (.respond 0 (0, 0) payload), .mesh first (.respond 1 (0, 0) payload'),
    .mesh first (.dubboRead 0 20), .mesh first (.paRead 0 0 100)]

def laterRead : List (Event Bool) :=
  [.mesh first (.dubboRead 0 100), .mesh first (.paRead 0 0 100)]

/-- The response that a body should get, when the providers have one answer to each request. -/
def due (func : Bytes → Nat → Nat) (answer : Bytes → Bytes) (post : Post χ) :
    Option (Option Bytes) := do
  let f ← readForm (caServerInit func) post.data
  let key ← f.reuseKey
  let payload := answer (dubboBody ((f.request post.request.id).under key))
  some (actDoneCallback ⟨post.request.id, payload.length, nulPadded payload⟩)

theorem Shows.due [DecidableEq χ] {answer : Bytes → Bytes} {r : Remote χ (Post χ) Bytes}
    (hshows : Shows lb₀ g r) (hr : Remote.Reached (Serves func (answering answer)) r) {c : χ}
    {response : Option Bytes} (h : response ∈ g.responses c) :
    some response ∈ (ownedBy Post.context c g.posts).map (due func answer) := by
  obtain ⟨post, hpost, payload, ⟨f, key, hf, hkey, hserves⟩, hresponse⟩ :=
    hr.sound.served (fun post payload response => response =
      actDoneCallback ⟨post.request.id, payload.length, nulPadded payload⟩) (hshows.answers c) h
  rw [hshows.issued] at hpost
  obtain rfl : payload = answer (dubboBody ((f.request post.request.id).under key)) := hserves
  refine List.mem_map.mpr ⟨post, hpost, ?_⟩
  rw [Gateway.due, hf, Option.bind_eq_bind, Option.bind_some, hkey, Option.bind_eq_bind,
    Option.bind_some, hresponse]

/-- With one id in both bodies the second HTTP connection gets the response to the body of the
first, and the answer to its own is fatal to the provider agent. -/
theorem shared_id_misanswered : ∃ g : Gateway Bool,
    Runs (fun g e => Regular (answering hashDigit) g e ∧ OwnKeys g e) (step 65536)
        (start Bool bkdrHash oneEndpoint) g ∧
      g.responses false = [] ∧ g.responses true = [some (httpHeader ++ ascii "1\r\n\r\n9")] ∧
      (¬ ∃ r, Remote.Reached (Serves bkdrHash (answering hashDigit)) r ∧ Shows oneEndpoint g r) ∧
      step 65536 g (.mesh first (.dubboRead 0 100)) = none := by
  have hrun : ((samePosts (form "I" "h" "a") (form "I" "h" "b") 7 7 ++
      firstOnly [49, 10, 57, 10] [49, 10, 50, 10]).foldlM
      (fun g e => if checkRegular hashDigit g e && checkKeys g e then step 65536 g e else none)
      (start Bool bkdrHash oneEndpoint)).map (fun g => (g.responses true,
        (ownedBy Post.context true g.posts).map (due bkdrHash hashDigit),
        (g.responses false).isEmpty && (step 65536 g (.mesh first (.dubboRead 0 100))).isNone)) =
      some ([some (httpHeader ++ ascii "1\r\n\r\n9")],
        [some (some (httpHeader ++ ascii "1\r\n\r\n2"))], true) := by decide +kernel
  obtain ⟨g, hreached, hg⟩ :=
    Runs.exists_of_foldlM (fun _ _ _ => regular_ownKeys_of_check) hrun
  simp only [Prod.mk.injEq, Bool.and_eq_true, List.isEmpty_iff, Option.isNone_iff_eq_none] at hg
  obtain ⟨htrue, hdue, hfalse, hfatal⟩ := hg
  refine ⟨g, hreached, hfalse, htrue, ?_, hfatal⟩
  rintro ⟨r, hr, hshows⟩
  have hresponse := hshows.due hr (htrue ▸ List.mem_singleton_self _)
  rw [hdue] at hresponse
  revert hresponse
  decide

/-- The keys of `a.bc` and `ab.c` hash alike: the second body is sent as a call of `a.bc`, and its
connection gets the answer to that. -/
theorem shared_key_misrouted : ∃ g : Gateway Bool,
    Runs (fun g e => Regular (answering hashDigit) g e ∧ FreshIds g e) (step 65536)
        (start Bool bkdrHash oneEndpoint) g ∧
      g.responses false = [some (httpHeader ++ ascii "1\r\n\r\n6")] ∧
      g.responses true = [some (httpHeader ++ ascii "1\r\n\r\n9")] ∧
      ¬ ∃ r, Remote.Reached (Serves bkdrHash (answering hashDigit)) r ∧ Shows oneEndpoint g r := by
  have hrun : ((samePosts (form "a" "bc" "a") (form "ab" "c" "b") 7 8 ++
      firstOnly [49, 10, 54, 10] [49, 10, 57, 10] ++ laterRead).foldlM
      (fun g e => if checkRegular hashDigit g e && checkFresh g e then step 65536 g e else none)
      (start Bool bkdrHash oneEndpoint)).map (fun g => ([false, true].map g.responses,
        (ownedBy Post.context true g.posts).map (due bkdrHash hashDigit))) =
      some ([[some (httpHeader ++ ascii "1\r\n\r\n6")],
        [some (httpHeader ++ ascii "1\r\n\r\n9")]],
        [some (some (httpHeader ++ ascii "1\r\n\r\n3"))]) := by decide +kernel
  obtain ⟨g, hreached, hg⟩ := Runs.exists_of_foldlM
    (fun _ _ hg h => regular_fresh_of_check (tracked_of_runs hg) h) hrun
  simp only [Prod.mk.injEq, List.map_cons, List.cons.injEq] at hg
  obtain ⟨⟨hfalse, htrue, _⟩, hdue⟩ := hg
  refine ⟨g, hreached, hfalse, htrue, ?_⟩
  rintro ⟨r, hr, hshows⟩
  have hresponse := hshows.due hr (htrue ▸ List.mem_singleton_self _)
  rw [hdue] at hresponse
  revert hresponse
  decide

/-- Endpoints that are ready, by computation. -/
def checkReady (cap : Nat) (g : Gateway χ) : Bool :=
  g.ca.created.all fun p =>
    (g.meshes p.1).agent.dubbo.env.connected && (List.range g.ca.created.length).all fun i =>
      (((g.meshes p.1).clients i).all fun k =>
        k.env.connected && decide (k.env.key.width ≤ cap)) &&
      ((g.meshes p.1).issued i).all fun call => decide (call.request.width ≤ cap)

theorem ready_of_checkReady (hS : 3 ≤ S) (hcap : toUInt32 S < 2147483648)
    (hm : Inv serves S func lb₀ g) {cap : Nat} (hheader : 8 ≤ cap)
    (h : checkReady cap g = true) (e : Fin 10) : Ready cap (g.meshes e) := by
  intro i₀ k₀ hk₀
  have hcheck := List.all_eq_true.mp h _ (List.mem_of_getElem? ((hm.endpoint e).clients i₀ k₀ hk₀))
  rw [Bool.and_eq_true] at hcheck
  obtain ⟨hdubbo, hlines⟩ := hcheck
  have hline : ∀ i < g.ca.created.length, (((g.meshes e).clients i).all fun k =>
      k.env.connected && decide (k.env.key.width ≤ cap)) = true ∧
        ∀ call ∈ (g.meshes e).issued i, call.request.width ≤ cap := by
    intro i hi
    have hi := List.all_eq_true.mp hlines i (List.mem_range.mpr hi)
    rw [Bool.and_eq_true] at hi
    exact ⟨hi.1, fun call hcall => of_decide_eq_true (List.all_eq_true.mp hi.2 call hcall)⟩
  have hclient : ∀ i k, (g.meshes e).clients i = some k →
      k.env.connected = true ∧ k.env.key.width ≤ cap := by
    intro i k hk
    have hi := (List.getElem?_eq_some_iff.mp ((hm.endpoint e).clients i k hk)).1
    have hall := (hline i hi).1
    rw [hk, Option.all_some, Bool.and_eq_true, decide_eq_true_eq] at hall
    exact hall
  refine ⟨⟨hdubbo, fun i k hk => (hclient i k hk).1⟩,
    ⟨hheader, fun i k hk => (hclient i k hk).2, ?_⟩⟩
  intro i call hcall
  cases hk : (g.meshes e).clients i with
  | none =>
    obtain ⟨y, hy, _⟩ := Mesh.exists_inv_of_reached hS hcap (hm.endpoint e).reached
    rw [(hy.absent i hk).1] at hcall
    cases hcall
  | some k =>
    have hi := (List.getElem?_eq_some_iff.mp ((hm.endpoint e).clients i k hk)).1
    exact (hline i hi).2 call hcall

/-- Both bodies have been posted, and both endpoints are up. -/
theorem responded_of_reached_two_posts : ∃ g : Gateway Bool, g.posts.length = 2 ∧
    Acc (fun g' g => Next (answering hashDigit) 65536 g g') g ∧
      ∀ g', Relation.ReflTransGen (Next (answering hashDigit) 65536) g g' →
        (∀ g'', ¬ Next (answering hashDigit) 65536 g' g'') →
          g'.posts = g.posts ∧ ∃ r, Remote.Reached (Serves bkdrHash (answering hashDigit)) r ∧
            Shows twoEndpoints g' r ∧
              ∀ c, ∀ j < (r.issued c).length, j ∈ (r.answers c).map Prod.fst := by
  have hrun : (twoPosts.foldlM
      (fun g e => if checkAllowed hashDigit g e then step 65536 g e else none)
      (start Bool bkdrHash twoEndpoints)).map (fun g => (g.posts.length, checkReady 65536 g)) =
      some (2, true) := by decide +kernel
  obtain ⟨g, hreached, hcheck⟩ := Runs.exists_of_foldlM (fun _ _ => allowed_of_check) hrun
  obtain ⟨hlen, hcheck⟩ := Prod.mk.inj hcheck
  have hcap : toUInt32 (65536 : Nat) = 65536 := toUInt32_of_lt (by omega)
  have hserves : ∀ e, Mesh.Answers (answering hashDigit e) (toUInt32 (65536 : Nat)) := by
    intro e
    refine ⟨fun body => ⟨hashDigit body, rfl⟩, ?_, ?_⟩
    · rintro body _ rfl
      rw [hcap]
      exact Nat.le_of_ble_eq_true rfl
    · rintro body _ rfl
      exact Nat.lt_of_sub_pos (Nat.zero_lt_succ _)
  refine ⟨g, hlen, responded_of_reached (by decide) (by omega) hserves hreached ?_⟩
  rw [hcap]
  exact ready_of_checkReady (by decide) (by omega) (inv_of_reached (by decide) (by omega) hreached)
    (by omega) hcheck

end Gateway
end PyAgent
