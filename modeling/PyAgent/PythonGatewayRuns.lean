import PyAgent.PythonGateway
import PyAgent.Streaming.Regroup

/-!
# The Python consumer agent at work

What ca.py keeps in order while the meshes behind it go on: which connection a request
was fetched on, which handler a callback is for, and what has become of each handler
(`PyGateway.Inv`).
-/

namespace PyAgent.Python
set_option autoImplicit false

open Streaming

/-! ## What an event adds to the connections -/

namespace PyMesh
variable {γ : Type} {m m' : PyMesh γ}

/-- The calls that an event makes, with their connections. -/
def Event.calls : Event γ → List (Nat × ActRequest × γ)
  | .fetch i request callback => [(i, request, callback)]
  | _ => []

structure Grows (m : PyMesh γ) (e : Event γ) (m' : PyMesh γ) : Prop where
  kept : ∀ (i : Nat) key x, m.callers[i]? = some (key, x) → ∃ x', m'.callers[i]? = some (key, x')
  issued : ∀ i, m'.issued i = m.issued i ++ (ownedBy Prod.fst i e.calls).map Prod.snd
  made : ∀ i, m'.made i = m.made i ++ (ownedBy Prod.fst i (m.newCalls m' e)).map Prod.snd

theorem newCalls_of_ne {e : Event γ} (h : ∀ i, e ≠ .readCallback i) : m.newCalls m' e = [] := by
  cases e with
  | readCallback i => exact absurd rfl (h i)
  | _ => rfl

/-- What one connection does, the others do not notice. -/
theorem stepCaller_at {i : Nat} {e : Talk.Event ActRequest ActResponse γ}
    (hstep : m.stepCaller i e = some m') :
    (∀ (i' : Nat) key x, m.callers[i']? = some (key, x) →
      ∃ x', m'.callers[i']? = some (key, x')) ∧
    (∀ i', m'.issued i' = m.issued i' ++ if i = i' then e.calls else []) ∧
    (∀ i', m.made i' <+: m'.made i') ∧
    (∀ i', (i = i' → e ≠ .readCallback) → m'.made i' = m.made i') := by
  obtain ⟨key, x, x', hc, hx, rfl⟩ := stepCaller_eq_some_iff.mp hstep
  have hself : (m.callers.set i (key, x'))[i]? = some (key, x') :=
    List.getElem?_set_self (List.getElem?_eq_some_iff.mp hc).1
  have hother : ∀ {i'}, i ≠ i' → (m.callers.set i (key, x'))[i']? = m.callers[i']? :=
    fun hi => List.getElem?_set_ne hi
  have hgrows := Talk.step_grows hx
  refine ⟨?_, ?_, ?_, ?_⟩
  · intro i' key' x₀ hget
    by_cases hi : i = i'
    · subst hi
      rw [hc, Option.some.injEq, Prod.mk.injEq] at hget
      obtain ⟨rfl, rfl⟩ := hget
      exact ⟨x', hself⟩
    · exact ⟨x₀, (hother hi).trans hget⟩
  · intro i'
    by_cases hi : i = i'
    · subst hi
      simp only [issued, hself, hc, Option.elim_some, hgrows.issued, if_pos trivial]
    · simp only [issued, hother hi, if_neg hi, List.append_nil]
  · intro i'
    by_cases hi : i = i'
    · subst hi
      simp only [made, hself, hc, Option.elim_some]
      exact hgrows.called
    · simp only [made, hother hi]
      exact List.prefix_refl _
  · intro i' hread
    by_cases hi : i = i'
    · subst hi
      simp only [made, hself, hc, Option.elim_some]
      exact Talk.step_called hx (hread rfl)
    · simp only [made, hother hi]

theorem grows_of_stepCaller {i : Nat} {e : Talk.Event ActRequest ActResponse γ}
    (hstep : m.stepCaller i e = some m') (hread : e ≠ .readCallback) {e' : Event γ}
    (hcalls : e'.calls = e.calls.map fun call => (i, call))
    (hread' : ∀ i, e' ≠ .readCallback i) : Grows m e' m' := by
  obtain ⟨hkept, hissued, _, hmade⟩ := stepCaller_at hstep
  refine ⟨hkept, ?_, ?_⟩
  · intro i'
    rw [hissued, hcalls, ownedBy_tagged]
  · intro i'
    rw [newCalls_of_ne hread', hmade i' fun _ => hread]
    simp

theorem grows_of_step {e : Event γ} (hstep : step m e = some m') : Grows m e m' := by
  have hquiet : ∀ {e : Event γ}, (∀ i, e ≠ .readCallback i) → e.calls = [] →
      (∀ (i : Nat) key x, m.callers[i]? = some (key, x) →
        ∃ x', m'.callers[i]? = some (key, x')) →
      (∀ i, m'.issued i = m.issued i) → (∀ i, m'.made i = m.made i) → Grows m e m' := by
    intro e hread hcalls hkept hissued hmade
    refine ⟨hkept, ?_, ?_⟩
    · intro i
      rw [hissued, hcalls]
      simp
    · intro i
      rw [hmade, newCalls_of_ne hread]
      simp
  cases e with
  | create key =>
    obtain rfl := Option.some.inj hstep
    refine hquiet (by simp) rfl ?_ (fun i => elim_append rfl i) fun i => elim_append rfl i
    intro i key' x hc
    exact ⟨x, (List.getElem?_append_left (List.getElem?_eq_some_iff.mp hc).1).trans hc⟩
  | connect i => exact grows_of_stepCaller hstep (by simp) rfl (by simp)
  | fetch i request callback => exact grows_of_stepCaller hstep (by simp) rfl (by simp)
  | receive i n => exact grows_of_stepCaller hstep (by simp) rfl (by simp)
  | arrive i n =>
    obtain ⟨_, _, hstep⟩ := Option.bind_eq_some_iff.mp hstep
    obtain ⟨_, _, hstep⟩ := Option.bind_eq_some_iff.mp hstep
    obtain ⟨agent, _, hstep⟩ := Option.bind_eq_some_iff.mp hstep
    obtain rfl := Option.some.inj hstep
    exact hquiet (by simp) rfl (fun _ _ x hc => ⟨x, hc⟩) (fun _ => rfl) fun _ => rfl
  | resume i =>
    obtain ⟨agent, _, hstep⟩ := Option.bind_eq_some_iff.mp hstep
    obtain rfl := Option.some.inj hstep
    exact hquiet (by simp) rfl (fun _ _ x hc => ⟨x, hc⟩) (fun _ => rfl) fun _ => rfl
  | dubbo key e =>
    obtain ⟨agent, _, hstep⟩ := Option.bind_eq_some_iff.mp hstep
    obtain rfl := Option.some.inj hstep
    refine hquiet (by simp) rfl ?_ ?_ ?_
    · intro i key' x hc
      simp [List.getElem?_mapIdx, hc]
    · intro i
      cases hc : m.callers[i]? <;> simp [issued, List.getElem?_mapIdx, hc, PyMesh.hear]
    · intro i
      cases hc : m.callers[i]? <;> simp [made, List.getElem?_mapIdx, hc, PyMesh.hear]
  | readCallback i =>
    obtain ⟨hkept, hissued, hinitial, hmade⟩ := stepCaller_at hstep
    refine ⟨hkept, ?_, ?_⟩
    · intro i'
      rw [hissued]
      simp [Event.calls, Talk.Event.calls]
    · intro i'
      rw [newCalls, ownedBy_tagged]
      by_cases hi : i = i'
      · subst hi
        obtain ⟨new, hnew⟩ := hinitial i
        rw [if_pos rfl, ← hnew, List.drop_left]
      · rw [if_neg hi, List.append_nil, hmade i' fun h => absurd h hi]

end PyMesh

namespace PyGateway

/-! ## Handlers -/

section
variable {handlers handlers' : List (Option RequestHandler)} {ms : List (Nat × ActResponse)}

theorem callback_new_eq_some_iff {actResponse : ActResponse} {handler : RequestHandler} :
    IndexHandler.callback {} actResponse = some handler ↔
      ∃ word, Answers actResponse.result word ∧ handler = ⟨word, true⟩ := by
  simp only [answers_iff]
  cases hword : (split actResponse.result)[1]? with
  | none => simp [IndexHandler.callback, hword]
  | some word =>
    have hdone : IndexHandler.callback {} actResponse = some ⟨word, true⟩ := by
      simp [IndexHandler.callback, hword, RequestHandler.write, RequestHandler.finish]
    rw [hdone]
    constructor
    · exact fun h => ⟨word, rfl, (Option.some.inj h).symm⟩
    · rintro ⟨_, ⟨⟩, rfl⟩
      rfl

/-- Each handler is called with what is for it, and none comes or goes. -/
theorem foldlM_answer (h : ms.foldlM answer handlers = some handlers') (n : Nat) :
    ((∃ handler', handlers'[n]? = some (some handler')) ↔
      ∃ handler, handlers[n]? = some (some handler)) ∧
    ∀ handler, handlers'[n]? = some (some handler) → ∃ old, handlers[n]? = some (some old) ∧
      ((ownedBy Prod.fst n ms).map Prod.snd).foldlM IndexHandler.callback old = some handler := by
  induction ms generalizing handlers with
  | nil =>
    obtain rfl := Option.some.inj h
    exact ⟨Iff.rfl, fun handler hget => ⟨handler, hget, rfl⟩⟩
  | cons m ms ih =>
    rw [List.foldlM_cons] at h
    obtain ⟨handlers₁, hanswer, h⟩ := Option.bind_eq_some_iff.mp h
    obtain ⟨old, hold, hanswer⟩ := Option.bind_eq_some_iff.mp hanswer
    obtain ⟨new, hnew, hanswer⟩ := Option.bind_eq_some_iff.mp hanswer
    obtain rfl := Option.some.inj hanswer
    rw [Option.join_eq_some_iff] at hold
    obtain ⟨hsome, hfold⟩ := ih h
    by_cases hn : m.1 = n
    · subst hn
      have hself := List.getElem?_set_self (a := some new) (List.getElem?_eq_some_iff.mp hold).1
      refine ⟨iff_of_true (hsome.mpr ⟨new, hself⟩) ⟨old, hold⟩, ?_⟩
      intro handler hget
      obtain ⟨handler₁, hget₁, hrest⟩ := hfold handler hget
      obtain rfl := Option.some.inj (Option.some.inj (hself.symm.trans hget₁))
      have hcons : ownedBy Prod.fst m.1 (m :: ms) = m :: ownedBy Prod.fst m.1 ms := by
        simp [ownedBy]
      refine ⟨old, hold, ?_⟩
      rw [hcons, List.map_cons, List.foldlM_cons, hnew]
      exact hrest
    · have hskip : ownedBy Prod.fst n (m :: ms) = ownedBy Prod.fst n ms := by
        simp [ownedBy, hn]
      rw [List.getElem?_set_ne hn] at hsome hfold
      rw [hskip]
      exact ⟨hsome, hfold⟩

theorem foldlM_answer_length (h : ms.foldlM answer handlers = some handlers') :
    handlers'.length = handlers.length := by
  induction ms generalizing handlers with
  | nil =>
    obtain rfl := Option.some.inj h
    rfl
  | cons m ms ih =>
    rw [List.foldlM_cons] at h
    obtain ⟨handlers₁, hanswer, h⟩ := Option.bind_eq_some_iff.mp h
    obtain ⟨_, _, hanswer⟩ := Option.bind_eq_some_iff.mp hanswer
    obtain ⟨_, _, hanswer⟩ := Option.bind_eq_some_iff.mp hanswer
    obtain rfl := Option.some.inj hanswer
    rw [ih h, List.length_set]

/-- Nothing is raised when the handlers are new and the answers have two words. -/
theorem exists_foldlM_answer (hnodup : (ms.map Prod.fst).Nodup)
    (hnew : ∀ m ∈ ms, handlers[m.1]? = some (some {}))
    (hwords : ∀ m ∈ ms, ∃ word, Answers m.2.result word) :
    ∃ handlers', ms.foldlM answer handlers = some handlers' := by
  induction ms generalizing handlers with
  | nil => exact ⟨handlers, rfl⟩
  | cons m ms ih =>
    rw [List.map_cons, List.nodup_cons] at hnodup
    obtain ⟨word, hword⟩ := hwords m List.mem_cons_self
    have hcallback := callback_new_eq_some_iff.mpr ⟨word, hword, rfl⟩
    have hanswer : answer handlers m = some (handlers.set m.1 (some ⟨word, true⟩)) := by
      simp only [answer, hnew m List.mem_cons_self, Option.join_some, Option.bind_eq_bind,
        Option.bind_some, hcallback]
    rw [List.foldlM_cons, hanswer, Option.bind_eq_bind, Option.bind_some]
    apply ih hnodup.2
    · intro m' hm'
      have hne : m.1 ≠ m'.1 := by
        intro heq
        rw [heq] at hnodup
        exact hnodup.1 (List.mem_map_of_mem hm')
      rw [List.getElem?_set_ne hne]
      exact hnew m' (List.mem_cons_of_mem _ hm')
    · exact fun m' hm' => hwords m' (List.mem_cons_of_mem _ hm')

end

/-! ## Connections -/

/-- The connections carry the requests that were fetched on them, and their callbacks are known. -/
structure Lines (serves : Bytes → Bytes → Bytes → Prop) (meshes : Bytes → PyMesh Nat)
    (posts : List Post) (made : List ((Bytes × Nat) × Nat × ActResponse)) : Prop where
  reached : ∀ host, PyMesh.Reached (serves host) (meshes host)
  issued : ∀ host i, (meshes host).issued i = (ownedBy Post.line (host, i) posts).map Post.call
  made : ∀ host i, (meshes host).made i = (ownedBy Prod.fst (host, i) made).map Prod.snd
  once : (posts.map Post.handler).Nodup

section
variable {serves : Bytes → Bytes → Bytes → Prop} {meshes : Bytes → PyMesh Nat}
  {posts : List Post} {made : List ((Bytes × Nat) × Nat × ActResponse)} {host : Bytes}
  {mesh : PyMesh Nat}

theorem Lines.step (hm : Lines serves meshes posts made) {e : PyMesh.Event Nat}
    (he : PyMesh.Allowed (serves host) (meshes host) e)
    (hstep : (meshes host).step e = some mesh) (new : List Post)
    (hcalls : e.calls = new.map fun post => (post.conn, post.call))
    (hhost : ∀ post ∈ new, post.host = host)
    (honce : ((posts ++ new).map Post.handler).Nodup) :
    Lines serves (Function.update meshes host mesh) (posts ++ new)
      (made ++ ((meshes host).newCalls mesh e).map fun m => ((host, m.1), m.2)) := by
  have hgrows := PyMesh.grows_of_step hstep
  refine ⟨?_, ?_, ?_, honce⟩
  · intro host'
    by_cases hh : host' = host
    · subst hh
      rw [Function.update_self]
      exact (hm.reached host').tail ⟨e, he, hstep⟩
    · rw [Function.update_of_ne hh]
      exact hm.reached host'
  · intro host' i
    rw [ownedBy_append, List.map_append]
    by_cases hh : host' = host
    · subst hh
      have hline : ownedBy Post.line (host', i) new = ownedBy Post.conn i new := by
        apply List.filter_congr
        intro post hpost
        simp [Post.line, hhost post hpost]
      rw [Function.update_self, hgrows.issued, hcalls, ownedBy_map, List.map_map, hm.issued, hline]
      rfl
    · have hnone : ownedBy Post.line (host', i) new = [] := by
        apply ownedBy_eq_nil
        intro post hpost heq
        exact hh ((congrArg Prod.fst heq).symm.trans (hhost post hpost))
      rw [Function.update_of_ne hh, hnone, List.map_nil, List.append_nil]
      exact hm.issued host' i
  · intro host' i
    rw [ownedBy_append, List.map_append]
    by_cases hh : host' = host
    · subst hh
      have hline : ownedBy (fun m : Nat × Nat × ActResponse => (host', m.1)) (host', i)
          ((meshes host').newCalls mesh e) =
          ownedBy Prod.fst i ((meshes host').newCalls mesh e) := by
        apply List.filter_congr
        intro m _
        simp
      rw [Function.update_self, hgrows.made, ownedBy_map, List.map_map, hline, hm.made]
      rfl
    · have hnone : ownedBy Prod.fst (host', i)
          (((meshes host).newCalls mesh e).map fun m => ((host, m.1), m.2)) = [] := by
        apply ownedBy_eq_nil
        intro m hmem heq
        obtain ⟨_, _, rfl⟩ := List.mem_map.mp hmem
        exact hh (congrArg Prod.fst heq).symm
      rw [Function.update_of_ne hh, hnone, List.map_nil, List.append_nil]
      exact hm.made host' i

theorem Lines.step_of_calls (hm : Lines serves meshes posts made) {e : PyMesh.Event Nat}
    (he : PyMesh.Allowed (serves host) (meshes host) e)
    (hstep : (meshes host).step e = some mesh) (hcalls : e.calls = []) :
    Lines serves (Function.update meshes host mesh) posts
      (made ++ ((meshes host).newCalls mesh e).map fun m => ((host, m.1), m.2)) := by
  have hall := hm.step he hstep [] hcalls (by simp) (by rw [List.append_nil]; exact hm.once)
  rwa [List.append_nil] at hall

/-- A connection that is made has neither requests nor callbacks. -/
theorem Lines.create (hm : Lines serves meshes posts made) {key : ChannelKey}
    (hkey : (encodeActKey key).isSome) (hstep : (meshes host).step (.create key) = some mesh) :
    Lines serves (Function.update meshes host mesh) posts made := by
  have hall := hm.step_of_calls (e := .create key) ⟨hkey, trivial⟩ hstep rfl
  simpa [PyMesh.newCalls] using hall

/-- The callbacks, as answers to the POSTs. -/
structure Told (serves : Bytes → Bytes → Bytes → Prop) (posts : List Post)
    (made : List ((Bytes × Nat) × Nat × ActResponse)) (answers : List (Nat × Bytes)) : Prop where
  sound : Log.Sound (fun post => serves post.host (makeDubboRequest post.request).body)
    ⟨posts, answers⟩
  told : List.Forall₂ (fun a m => ∃ post, posts[a.1]? = some post ∧
    m.2 = (post.handler, ⟨post.request.id, a.2⟩)) answers made

theorem Lines.exists_answers (hm : Lines serves meshes posts made) :
    ∃ answers, Told serves posts made answers ∧
      ((∀ post ∈ posts, (meshes post.host).Stuck) →
        ∀ n < posts.length, n ∈ answers.map Prod.fst) := by
  have hinv : ∀ host, PyMesh.Inv (serves host) (meshes host) :=
    fun host => PyMesh.inv_of_reached (hm.reached host)
  let r : Remote (Bytes × Nat) (Bytes × ActRequest × Nat) Bytes :=
    ⟨fun p => ((meshes p.1).issued p.2).map fun call => (p.1, call),
      fun p => (meshes p.1).answered p.2⟩
  have hsound : r.Sound fun e => PyMesh.Serves (serves e.1) e.2 := by
    refine ⟨fun p => (hinv p.1).sound.once p.2, ?_⟩
    rintro p j v hmem
    obtain ⟨call, hcall, hserves⟩ := (hinv p.1).sound.right p.2 j v hmem
    refine ⟨(p.1, call), ?_, hserves⟩
    rw [List.getElem?_map, Option.map_eq_some_iff]
    exact ⟨call, hcall, rfl⟩
  have hposts : ∀ p, r.issued p =
      (ownedBy Post.line p posts).map fun post => (post.host, post.call) := by
    rintro ⟨host, i⟩
    simp only [r, hm.issued, List.map_map]
    apply List.map_congr_left
    intro post hpost
    obtain ⟨_, hline⟩ := mem_ownedBy.mp hpost
    obtain ⟨rfl, rfl⟩ := Prod.mk.inj hline
    rfl
  have hmade : ∀ p, List.Forall₂ (fun (a : Nat × Bytes) (m : Nat × ActResponse) =>
      ∃ call, ((meshes p.1).issued p.2)[a.1]? = some call ∧ m = (call.2, ⟨call.1.id, a.2⟩))
        (r.answers p) ((ownedBy Prod.fst p made).map Prod.snd) := by
    rintro ⟨host, i⟩
    rw [← hm.made]
    exact (hinv host).shows.answers i
  obtain ⟨answers, hlog, htold, hall⟩ := exists_log hsound hposts hmade
  refine ⟨answers, ⟨hlog, ?_⟩, ?_⟩
  · apply htold.imp
    rintro a ⟨⟨host, i⟩, m⟩ ⟨post, hpost, hline, call, hcall, heq⟩
    have hrank := ownedBy_rank hpost hline
    rw [hm.issued, List.getElem?_map, hrank] at hcall
    obtain rfl := Option.some.inj hcall
    exact ⟨post, hpost, heq⟩
  · intro hstuck
    apply hall
    rintro p j hj
    have hpost := hj
    rw [hposts, List.length_map] at hpost
    obtain ⟨hmem, hline⟩ := mem_ownedBy.mp (List.getElem_mem hpost)
    have hhost := hstuck _ hmem
    rw [show (ownedBy Post.line p posts)[j].host = p.1 from congrArg Prod.fst hline] at hhost
    rw [List.length_map] at hj
    exact (hinv p.1).answered_of_stuck hhost hj

section
variable {answers : List (Nat × Bytes)}

/-- A callback is for the handler of a POST whose request has been answered. -/
theorem Told.of_mem (ht : Told serves posts made answers)
    {m : (Bytes × Nat) × Nat × ActResponse} (hmem : m ∈ made) : ∃ post ∈ posts,
      m.2.1 = post.handler ∧
        serves post.host (makeDubboRequest post.request).body m.2.2.result := by
  obtain ⟨n, hn⟩ := List.mem_iff_getElem?.mp hmem
  obtain ⟨hlt, rfl⟩ := List.getElem?_eq_some_iff.mp hn
  have hlt' : n < answers.length := by rwa [ht.told.length_eq]
  obtain ⟨post, hpost, heq⟩ := ht.told.get hlt' hlt
  obtain ⟨post', hpost', hserves⟩ := ht.sound.right _ (List.get_mem answers ⟨n, hlt'⟩)
  obtain rfl : post = post' := Option.some.inj (hpost.symm.trans hpost')
  rw [List.get_eq_getElem] at heq hserves
  rw [heq]
  exact ⟨post, List.mem_of_getElem? hpost, rfl, hserves⟩

/-- No handler is called back twice. -/
theorem Told.nodup (ht : Told serves posts made answers)
    (honce : (posts.map Post.handler).Nodup) : (made.map fun m => m.2.1).Nodup := by
  have hcallers : (answers.map Prod.fst).map (fun n => (posts.map Post.handler)[n]?) =
      (made.map fun m => m.2.1).map some := by
    rw [List.map_map, List.map_map, ← List.forall₂_eq_eq_eq, List.forall₂_map_left_iff,
      List.forall₂_map_right_iff]
    apply ht.told.imp
    rintro a m ⟨post, hpost, heq⟩
    simp [hpost, heq]
  apply List.Nodup.of_map some
  rw [← hcallers]
  apply ht.sound.once.map_on
  intro n hn n' _ heq
  obtain ⟨a, ha, rfl⟩ := List.mem_map.mp hn
  obtain ⟨post, hpost, _⟩ := ht.sound.right a ha
  have hlt := (List.getElem?_eq_some_iff.mp hpost).1
  exact (List.getElem?_inj (by rwa [List.length_map]) honce).mp heq

end

end

/-! ## The agent -/

/-- Which connection is for which key, where the POSTs have gone, and what each handler has been
called back with. -/
structure Inv (serves : Bytes → Bytes → Bytes → Prop) (endPoints : EndPoints) (g : PyGateway) :
    Prop where
  lines : Lines serves g.meshes g.posts g.made
  conns : ∀ host key i, g.conns host key = some i →
    ∃ x, (g.meshes host).callers[i]? = some (key, x)
  posts : ∀ post ∈ g.posts, Made endPoints g.ports post
  ports : ∀ host port, g.ports host = some port →
    ∃ k, (endPoints.after k).choice.2 = some (host, port)
  waiting : ∀ n, (∃ handler, g.handlers[n]? = some (some handler)) ↔
    n ∈ g.posts.map Post.handler
  handlers : ∀ (n : Nat) handler, g.handlers[n]? = some (some handler) →
    ((ownedBy Prod.fst n (g.made.map Prod.snd)).map Prod.snd).foldlM IndexHandler.callback {} =
      some handler

section
variable {serves : Bytes → Bytes → Bytes → Prop} {endPoints : EndPoints} {g g' : PyGateway}
  {host : Bytes} {port : Int} {key : ChannelKey} {mesh : PyMesh Nat}

theorem inv_start (serves : Bytes → Bytes → Bytes → Prop) (endPoints : EndPoints) :
    Inv serves endPoints { endPoints := endPoints } := by
  refine ⟨⟨fun _ => .refl, fun _ _ => rfl, fun _ _ => rfl, List.nodup_nil⟩, ?_, by simp, ?_, ?_,
    by simp⟩
  · intro _ _ _ h
    cases h
  · intro _ _ h
    cases h
  · simp

theorem getElem?_concat_none {handlers : List (Option RequestHandler)} {n : Nat}
    {handler : RequestHandler} :
    (handlers ++ [none])[n]? = some (some handler) ↔ handlers[n]? = some (some handler) := by
  rcases Nat.lt_trichotomy n handlers.length with hlt | rfl | hgt
  · rw [List.getElem?_append_left hlt]
  · simp
  · rw [List.getElem?_eq_none (Nat.le_of_lt hgt), List.getElem?_eq_none (by simp; omega)]

/-- A POST has raised an exception. -/
theorem Inv.raise (hg : Inv serves endPoints g) :
    Inv serves endPoints { g with handlers := g.handlers ++ [none] } := by
  refine ⟨hg.lines, hg.conns, hg.posts, hg.ports, ?_, ?_⟩
  · intro n
    simp only [getElem?_concat_none]
    exact hg.waiting n
  · intro n handler h
    exact hg.handlers n handler (getElem?_concat_none.mp h)

/-- A client stays the client of its host. -/
theorem Inv.chose (hg : Inv serves endPoints g) {k : Nat} {e : EndPoints}
    (hchoice : (endPoints.after k).choice.2 = some (host, port)) :
    Inv serves endPoints (g.chose e host port) ∧ ∃ port', (g.chose e host port).ports host =
      some port' ∧ ∃ k, (endPoints.after k).choice.2 = some (host, port') := by
  have hself : ∃ k, (endPoints.after k).choice.2 = some (host, (g.ports host).getD port) := by
    cases hport : g.ports host with
    | none => exact ⟨k, hchoice⟩
    | some port' => exact hg.ports host port' hport
  refine ⟨⟨hg.lines, hg.conns, ?_, ?_, hg.waiting, hg.handlers⟩, _, Function.update_self _ _ _,
    hself⟩
  · intro post hpost
    obtain ⟨hbalanced, ⟨port', hport, hfirst⟩, hrequest⟩ := hg.posts post hpost
    refine ⟨hbalanced, ⟨port', ?_, hfirst⟩, hrequest⟩
    by_cases hh : post.host = host
    · subst hh
      simp only [PyGateway.chose, Function.update_self, hport, Option.getD_some]
    · simp only [PyGateway.chose, Function.update_of_ne hh, hport]
  · intro host' port' hport
    by_cases hh : host' = host
    · subst hh
      simp only [PyGateway.chose, Function.update_self, Option.some.injEq] at hport
      subst hport
      exact hself
    · simp only [PyGateway.chose, Function.update_of_ne hh] at hport
      exact hg.ports host' port' hport

/-- The connections to a host are still there after an event of its mesh. -/
theorem Inv.conns_update (hg : Inv serves endPoints g) {e : PyMesh.Event Nat}
    (hstep : (g.meshes host).step e = some mesh) {host' : Bytes} {i : Nat}
    (hi : g.conns host' key = some i) :
    ∃ x, (Function.update g.meshes host mesh host').callers[i]? = some (key, x) := by
  obtain ⟨x, hx⟩ := hg.conns host' key i hi
  by_cases hh : host' = host
  · subst hh
    rw [Function.update_self]
    exact (PyMesh.grows_of_step hstep).kept i key x hx
  · rw [Function.update_of_ne hh]
    exact ⟨x, hx⟩

/-- A connection that is made leaves the rest alone. -/
structure Keeps (g g' : PyGateway) : Prop where
  endPoints : g'.endPoints = g.endPoints
  ports : g'.ports = g.ports
  handlers : g'.handlers = g.handlers

theorem connection_keeps {i : Nat} (h : g.connection host key = some (g', i)) : Keeps g g' := by
  unfold PyGateway.connection at h
  split at h
  · obtain ⟨rfl, rfl⟩ := Prod.mk.inj (Option.some.inj h)
    exact ⟨rfl, rfl, rfl⟩
  · obtain ⟨_, _, h⟩ := Option.bind_eq_some_iff.mp h
    obtain ⟨rfl, rfl⟩ := Prod.mk.inj (Option.some.inj h)
    exact ⟨rfl, rfl, rfl⟩

theorem exists_connection (g : PyGateway) (host : Bytes) (key : ChannelKey) :
    ∃ g' i, g.connection host key = some (g', i) := by
  unfold PyGateway.connection
  cases g.conns host key with
  | some i => exact ⟨g, i, rfl⟩
  | none => exact ⟨_, _, rfl⟩

/-- The connection that a POST is fetched on is for its key, and waits for nothing new. -/
theorem Inv.connection (hg : Inv serves endPoints g) (hkey : (encodeActKey key).isSome) {i : Nat}
    (h : g.connection host key = some (g', i)) : Inv serves endPoints g' ∧
      (∃ x, (g'.meshes host).callers[i]? = some (key, x)) ∧
      ∀ id, (∀ c ∈ (g.meshes host).callers, c.1 = key → c.2.conn.callbacks id = none) →
        ∀ c ∈ (g'.meshes host).callers, c.1 = key → c.2.conn.callbacks id = none := by
  unfold PyGateway.connection at h
  cases hconn : g.conns host key with
  | some i' =>
    rw [hconn] at h
    obtain ⟨rfl, rfl⟩ := Prod.mk.inj (Option.some.inj h)
    exact ⟨hg, hg.conns host key _ hconn, fun _ hfree => hfree⟩
  | none =>
    rw [hconn] at h
    obtain ⟨mesh, hmesh, h⟩ := Option.bind_eq_some_iff.mp h
    obtain ⟨rfl, rfl⟩ := Prod.mk.inj (Option.some.inj h)
    have hcallers : mesh.callers = (g.meshes host).callers ++ [(key, Talk.start _ _ _ _)] := by
      obtain rfl := Option.some.inj hmesh
      rfl
    have hnew : mesh.callers[(g.meshes host).callers.length]? =
        some (key, Talk.start _ _ _ _) := by
      rw [hcallers, List.getElem?_concat_length]
    refine ⟨⟨hg.lines.create hkey hmesh, ?_, hg.posts, hg.ports, hg.waiting, hg.handlers⟩, ?_,
      ?_⟩
    · intro host' key' i hi
      by_cases hh : host' = host
      · subst hh
        by_cases hk : key' = key
        · subst hk
          simp only [Function.update_self, Option.some.injEq] at hi ⊢
          subst hi
          exact ⟨_, hnew⟩
        · simp only [Function.update_self, Function.update_of_ne hk] at hi
          exact hg.conns_update hmesh hi
      · simp only [Function.update_of_ne hh] at hi
        exact hg.conns_update hmesh hi
    · simp only [Function.update_self]
      exact ⟨_, hnew⟩
    · intro id hfree c hc hk
      simp only [Function.update_self, hcallers] at hc
      rcases List.mem_append.mp hc with hc | hc
      · exact hfree c hc hk
      · obtain rfl := List.mem_singleton.mp hc
        rfl

/-- A request is fetched for a new handler. -/
theorem Inv.fetch (hg : Inv serves endPoints g) {post : Post}
    (hhandler : post.handler = g.handlers.length) (hmade : Made endPoints g.ports post)
    (hallowed : PyMesh.Allowed (serves post.host) (g.meshes post.host)
      (.fetch post.conn post.request post.handler))
    (hstep : (g.meshes post.host).step (.fetch post.conn post.request post.handler) = some mesh) :
    Inv serves endPoints { g with
      meshes := Function.update g.meshes post.host mesh
      handlers := g.handlers ++ [some {}]
      posts := g.posts ++ [post] } := by
  have hlt : ∀ n ∈ g.posts.map Post.handler, n < g.handlers.length := by
    intro n hn
    obtain ⟨handler, hget⟩ := (hg.waiting n).mpr hn
    exact (List.getElem?_eq_some_iff.mp hget).1
  have honce : ((g.posts ++ [post]).map Post.handler).Nodup := by
    rw [List.map_append, List.nodup_append]
    refine ⟨hg.lines.once, List.nodup_singleton _, ?_⟩
    intro n hn n' hn' heq
    obtain rfl := List.mem_singleton.mp hn'
    have := hlt n hn
    omega
  have hlines := hg.lines.step hallowed hstep [post] rfl (by simp) honce
  simp only [PyMesh.newCalls, List.map_nil, List.append_nil] at hlines
  refine ⟨hlines, fun _ _ _ hi => hg.conns_update hstep hi, ?_, hg.ports, ?_, ?_⟩
  · intro post' hpost'
    rcases List.mem_append.mp hpost' with hold | hnew
    · exact hg.posts post' hold
    · obtain rfl := List.mem_singleton.mp hnew
      exact hmade
  · intro n
    simp only [List.map_append, List.map_cons, List.map_nil, List.mem_append, List.mem_singleton]
    rcases Nat.lt_trichotomy n g.handlers.length with hn | rfl | hn
    · rw [List.getElem?_append_left hn, hg.waiting, hhandler]
      exact ⟨Or.inl, fun h => h.resolve_right (Nat.ne_of_lt hn)⟩
    · rw [List.getElem?_concat_length]
      exact iff_of_true ⟨_, rfl⟩ (Or.inr hhandler.symm)
    · rw [List.getElem?_eq_none (by rw [List.length_append, List.length_singleton]; omega)]
      apply iff_of_false (by simp)
      rintro (h | h)
      · have := hlt n h
        omega
      · omega
  · intro n handler hget
    rcases Nat.lt_or_ge n g.handlers.length with hn | hn
    · rw [List.getElem?_append_left hn] at hget
      exact hg.handlers n handler hget
    · -- nothing has been called back for a handler that has just been made
      have hnone : ownedBy Prod.fst n (g.made.map Prod.snd) = [] := by
        apply ownedBy_eq_nil
        intro m hmem heq
        obtain ⟨m', hm', rfl⟩ := List.mem_map.mp hmem
        obtain ⟨_, ht, _⟩ := hg.lines.exists_answers
        obtain ⟨post', hpost', hcaller, _⟩ := ht.of_mem hm'
        have := hlt _ (List.mem_map_of_mem hpost')
        omega
      rw [List.getElem?_append_right hn] at hget
      obtain rfl := Option.some.inj (List.mem_singleton.mp (List.mem_of_getElem? hget))
      rw [hnone]
      rfl

/-- The ways through `post`. -/
theorem post_cases {getArgument : Bytes → Option Bytes} {id : Nat}
    (h : g.post getArgument id = some g') :
    (∃ g₁, (g₁ = { g with endPoints := g.endPoints.choice.1 } ∨ ∃ host port,
        g.endPoints.choice.2 = some (host, port) ∧
          g₁ = g.chose g.endPoints.choice.1 host port) ∧
      g' = { g₁ with handlers := g₁.handlers ++ [none] }) ∨
    (∃ g₁ mesh, ∃ post : Post, g.endPoints.choice.2 = some (post.host, post.port) ∧
      post.handler = g.handlers.length ∧ makeActRequest getArgument id = some post.request ∧
      post.getArgument = getArgument ∧
      (g.chose g.endPoints.choice.1 post.host post.port).connection post.host post.request.key =
        some (g₁, post.conn) ∧
      (g₁.meshes post.host).step (.fetch post.conn post.request post.handler) = some mesh ∧
      g' = { g₁ with
        meshes := Function.update g₁.meshes post.host mesh
        handlers := g₁.handlers ++ [some {}]
        posts := g₁.posts ++ [post] }) := by
  unfold PyGateway.post at h
  cases hchoice : g.endPoints.choice.2 with
  | none =>
    simp only [hchoice, Option.some.injEq] at h
    exact Or.inl ⟨_, Or.inl rfl, h.symm⟩
  | some chosen =>
    obtain ⟨host, port⟩ := chosen
    simp only [hchoice] at h
    cases hrequest : makeActRequest getArgument id with
    | none =>
      simp only [hrequest, Option.some.injEq] at h
      exact Or.inl ⟨_, Or.inr ⟨host, port, rfl, rfl⟩, h.symm⟩
    | some request =>
      simp only [hrequest] at h
      obtain ⟨⟨g₁, i⟩, hconn, h⟩ := Option.bind_eq_some_iff.mp h
      obtain ⟨mesh, hmesh, h⟩ := Option.bind_eq_some_iff.mp h
      have hsame : g₁.handlers = g.handlers := (connection_keeps hconn).handlers
      exact Or.inr ⟨g₁, mesh, ⟨g₁.handlers.length, getArgument, host, port, i, request⟩, rfl,
        congrArg List.length hsame, rfl, rfl, hconn, hmesh, (Option.some.inj h).symm⟩

theorem makeActRequest_id {getArgument : Bytes → Option Bytes} {id : Nat} {request : ActRequest}
    (h : makeActRequest getArgument id = some request) : request.id = id := by
  obtain ⟨_, _, h⟩ := Option.bind_eq_some_iff.mp h
  obtain ⟨_, _, h⟩ := Option.bind_eq_some_iff.mp h
  obtain ⟨_, _, h⟩ := Option.bind_eq_some_iff.mp h
  obtain ⟨_, _, h⟩ := Option.bind_eq_some_iff.mp h
  obtain rfl := Option.some.inj h
  rfl

section
variable {getArgument : Bytes → Option Bytes} {id : Nat}
  (hturns : g.endPoints = endPoints.after g.handlers.length)
  (hallowed : Allowed serves g (.post getArgument id))
include hturns

theorem balanced_of_turns (hchoice : g.endPoints.choice.2 = some (host, port)) :
    (endPoints.after g.handlers.length).choice.2 = some (host, port) := by
  rw [← hturns]
  exact hchoice

include hallowed

/-- What `fetch` does for a POST that is allowed. -/
theorem Inv.connected (hg : Inv serves endPoints g)
    (hchoice : g.endPoints.choice.2 = some (host, port)) {request : ActRequest}
    (hrequest : makeActRequest getArgument id = some request) {i : Nat}
    (hconn : (g.chose g.endPoints.choice.1 host port).connection host request.key =
      some (g', i)) :
    Inv serves endPoints g' ∧ (∃ x, (g'.meshes host).callers[i]? = some (request.key, x)) ∧
      ∀ handler, PyMesh.Allowed (serves host) (g'.meshes host) (.fetch i request handler) := by
  obtain ⟨hkey, hbody, hencode⟩ := hallowed.1 _ _ _ hchoice hrequest
  have hfree := hallowed.2 _ _ _ hchoice hrequest
  obtain ⟨hchose, _⟩ := hg.chose (e := g.endPoints.choice.1) (balanced_of_turns hturns hchoice)
  obtain ⟨hinv, ⟨x, hx⟩, hfree'⟩ := hchose.connection hkey hconn
  refine ⟨hinv, ⟨x, hx⟩, fun handler => ⟨?_, ?_⟩⟩
  · intro c hc
    obtain rfl := Option.some.inj (hx.symm.trans hc)
    exact ⟨rfl, hbody, hencode⟩
  · intro c hc
    obtain rfl := Option.some.inj (hx.symm.trans hc)
    exact hfree' _ hfree

theorem Inv.post (hg : Inv serves endPoints g) (h : g.post getArgument id = some g') :
    Inv serves endPoints g' := by
  rcases post_cases h with ⟨g₁, hg₁, rfl⟩ |
    ⟨g₁, mesh, post, hchoice, hhandler, hrequest, rfl, hconn, hmesh, rfl⟩
  · apply Inv.raise
    rcases hg₁ with rfl | ⟨host, port, hchoice, rfl⟩
    · exact ⟨hg.lines, hg.conns, hg.posts, hg.ports, hg.waiting, hg.handlers⟩
    · exact (hg.chose (balanced_of_turns hturns hchoice)).1
  · obtain ⟨_, hport⟩ :=
      hg.chose (e := g.endPoints.choice.1) (balanced_of_turns hturns hchoice)
    obtain ⟨hinv, _, hfetch⟩ := hg.connected hturns hallowed hchoice hrequest hconn
    have hkeeps := connection_keeps hconn
    apply hinv.fetch
    · rw [hkeeps.handlers]
      exact hhandler
    · refine ⟨?_, by rw [hkeeps.ports]; exact hport, ?_⟩
      · rw [hhandler]
        exact balanced_of_turns hturns hchoice
      · rw [makeActRequest_id hrequest]
        exact hrequest
    · exact hfetch _
    · exact hmesh

/-- A POST that is allowed is taken. -/
theorem Inv.takes (hg : Inv serves endPoints g) : (g.post getArgument id).isSome := by
  unfold PyGateway.post
  cases hchoice : g.endPoints.choice.2 with
  | none => simp [hchoice]
  | some chosen =>
    obtain ⟨host, port⟩ := chosen
    cases hrequest : makeActRequest getArgument id with
    | none => simp [hchoice]
    | some request =>
      obtain ⟨g₁, i, hconn⟩ :=
        exists_connection (g.chose g.endPoints.choice.1 host port) host request.key
      obtain ⟨hinv, ⟨x, hx⟩, hfetch⟩ := hg.connected hturns hallowed hchoice hrequest hconn
      have hcan : PyMesh.Can (g₁.meshes host) (.fetch i request g₁.handlers.length) :=
        ⟨request.key, x, hx, trivial⟩
      obtain ⟨mesh, hmesh⟩ := Option.isSome_iff_exists.mp
        ((PyMesh.inv_of_reached (hinv.lines.reached host)).returns hcan (hfetch _))
      simp [hchoice, hconn, hmesh]

end

theorem turns_of_post {getArgument : Bytes → Option Bytes} {id : Nat}
    (hturns : g.endPoints = endPoints.after g.handlers.length)
    (h : g.post getArgument id = some g') :
    g'.endPoints = endPoints.after g'.handlers.length := by
  have hnext : g.endPoints.choice.1 = endPoints.after (g.handlers.length + 1) := by
    rw [hturns]
    rfl
  rcases post_cases h with ⟨g₁, rfl | ⟨host, port, _, rfl⟩, rfl⟩ |
    ⟨g₁, mesh, post, _, _, _, _, hconn, _, rfl⟩
  · rw [List.length_append]
    exact hnext
  · rw [List.length_append]
    exact hnext
  · have hkeeps := connection_keeps hconn
    rw [List.length_append, hkeeps.handlers, hkeeps.endPoints]
    exact hnext

theorem calls_of_moves {e : PyMesh.Event Nat} (he : e.Moves) : e.calls = [] := by
  cases e with
  | fetch i request callback => exact he.elim
  | _ => rfl

theorem fresh_of_moves {m : PyMesh Nat} {e : PyMesh.Event Nat} (he : e.Moves) :
    PyMesh.FreshIds m e := by
  cases e with
  | fetch i request callback => exact he.elim
  | _ => trivial

/-- What a mesh does, and what becomes of the handlers. -/
theorem step_mesh_eq_some_iff {e : PyMesh.Event Nat} : step g (.mesh host e) = some g' ↔
    e.Moves ∧ ∃ mesh handlers, (g.meshes host).step e = some mesh ∧
      (((g.meshes host).newCalls mesh e).map Prod.snd).foldlM answer g.handlers = some handlers ∧
      g' = { g with
        meshes := Function.update g.meshes host mesh
        handlers := handlers
        made := g.made ++ ((g.meshes host).newCalls mesh e).map fun m => ((host, m.1), m.2) } := by
  have hstep : e.Moves → step g (.mesh host e) = (do
      let mesh ← (g.meshes host).step e
      let handlers ← (((g.meshes host).newCalls mesh e).map Prod.snd).foldlM answer g.handlers
      some { g with
        meshes := Function.update g.meshes host mesh
        handlers := handlers
        made := g.made ++
          ((g.meshes host).newCalls mesh e).map fun m => ((host, m.1), m.2) }) := by
    intro he
    cases e <;> first | rfl | exact he.elim
  constructor
  · intro h
    have he : e.Moves := by
      cases e with
      | create key => cases h
      | fetch i request callback => cases h
      | _ => trivial
    rw [hstep he] at h
    obtain ⟨mesh, hmesh, h⟩ := Option.bind_eq_some_iff.mp h
    obtain ⟨handlers, hhandlers, h⟩ := Option.bind_eq_some_iff.mp h
    exact ⟨he, mesh, handlers, hmesh, hhandlers, (Option.some.inj h).symm⟩
  · rintro ⟨he, mesh, handlers, hmesh, hhandlers, rfl⟩
    rw [hstep he, hmesh, Option.bind_eq_bind, Option.bind_some, hhandlers]
    rfl

theorem Inv.step (hg : Inv serves endPoints g) {e : PyMesh.Event Nat}
    (hallowed : PyMesh.Allowed (serves host) (g.meshes host) e)
    (h : step g (.mesh host e) = some g') : Inv serves endPoints g' := by
  obtain ⟨hmoves, mesh, handlers, hmesh, hanswer, rfl⟩ := step_mesh_eq_some_iff.mp h
  have hlines := hg.lines.step_of_calls hallowed hmesh (calls_of_moves hmoves)
  refine ⟨hlines, fun _ _ _ hi => hg.conns_update hmesh hi, hg.posts, hg.ports, ?_, ?_⟩
  · exact fun n => (foldlM_answer hanswer n).1.trans (hg.waiting n)
  · intro n handler hget
    obtain ⟨old, hold, hnew⟩ := (foldlM_answer hanswer n).2 handler hget
    rw [List.map_append, ownedBy_append, List.map_append, List.foldlM_append, List.map_map,
      hg.handlers n old hold]
    exact hnew

/-- One more choice for every POST, and none for anything else. -/
theorem turns_of_step {e : Event} (hturns : g.endPoints = endPoints.after g.handlers.length)
    (h : step g e = some g') : g'.endPoints = endPoints.after g'.handlers.length := by
  cases e with
  | post getArgument id => exact turns_of_post hturns h
  | mesh host e =>
    obtain ⟨_, _, handlers, _, hanswer, rfl⟩ := step_mesh_eq_some_iff.mp h
    rw [show handlers.length = g.handlers.length from foldlM_answer_length hanswer]
    exact hturns

theorem inv_of_reached (h : Reached serves endPoints g) :
    Inv serves endPoints g ∧ g.endPoints = endPoints.after g.handlers.length := by
  induction h with
  | refl => exact ⟨inv_start serves endPoints, rfl⟩
  | tail _ hstep ih =>
    obtain ⟨hg, hturns⟩ := ih
    obtain ⟨e, hallowed, hstep⟩ := hstep
    refine ⟨?_, turns_of_step hturns hstep⟩
    cases e with
    | post getArgument id => exact hg.post hturns hallowed hstep
    | mesh host e => exact hg.step hallowed hstep

end

end PyGateway

end PyAgent.Python
