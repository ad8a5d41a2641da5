import PyAgent.PythonGatewayRuns

/-!
# What becomes of a POST

A handler is finished at most once, with what the provider has answered to the POST that
it is for (`sound_of_posts`); and it is finished when nothing is left to do
(`finished_of_stuck`).
-/

namespace PyAgent.Python
set_option autoImplicit false

open Streaming

namespace PyGateway

section
variable {serves : Bytes → Bytes → Bytes → Prop} {endPoints : EndPoints} {g : PyGateway}

/-- What a handler is after the one callback for it. -/
theorem Inv.answered_of_made (hg : Inv serves endPoints g)
    {m : (Bytes × Nat) × Nat × ActResponse} (hmem : m ∈ g.made) {handler : RequestHandler}
    (hget : g.handlers[m.2.1]? = some (some handler)) :
    ∃ post ∈ g.posts, m.2.1 = post.handler ∧ Answered serves post handler := by
  obtain ⟨answers, ht, _⟩ := hg.lines.exists_answers
  obtain ⟨post, hpost, hcaller, hserves⟩ := ht.of_mem hmem
  have hnodup : ((g.made.map Prod.snd).map Prod.fst).Nodup := by
    rw [List.map_map]
    exact ht.nodup hg.lines.once
  have hsingle := ownedBy_eq_singleton hnodup (List.mem_map_of_mem hmem) rfl
  have hfold := hg.handlers m.2.1 handler hget
  rw [hsingle, List.map_singleton, List.foldlM_cons] at hfold
  obtain ⟨handler', hcallback, hfold⟩ := Option.bind_eq_some_iff.mp hfold
  obtain rfl := Option.some.inj hfold
  obtain ⟨word, hword, hhandler⟩ := callback_new_eq_some_iff.mp hcallback
  exact ⟨post, hpost, hcaller, m.2.2.result, word, hserves, hword, hhandler⟩

theorem Inv.handled (hg : Inv serves endPoints g) {n : Nat} {handler : RequestHandler}
    (hget : g.handlers[n]? = some (some handler)) :
    ∃ post ∈ g.posts, post.handler = n ∧ (handler = {} ∨ Answered serves post handler) := by
  by_cases hmade : ∃ m ∈ g.made, m.2.1 = n
  · obtain ⟨m, hmem, rfl⟩ := hmade
    obtain ⟨post, hpost, hcaller, hanswered⟩ := hg.answered_of_made hmem hget
    exact ⟨post, hpost, hcaller.symm, Or.inr hanswered⟩
  · obtain ⟨post, hpost, hhandler⟩ := List.mem_map.mp ((hg.waiting n).mp ⟨handler, hget⟩)
    have hnone : ownedBy Prod.fst n (g.made.map Prod.snd) = [] := by
      apply ownedBy_eq_nil
      intro m hmem heq
      obtain ⟨m', hm', rfl⟩ := List.mem_map.mp hmem
      exact hmade ⟨m', hm', heq⟩
    have hfold := hg.handlers n handler hget
    rw [hnone] at hfold
    exact ⟨post, hpost, hhandler, Or.inl (Option.some.inj hfold).symm⟩

/-- The callbacks that an event makes are for handlers that nobody has written to. -/
theorem Inv.goesOn (hg : Inv serves endPoints g)
    (hwords : ∀ host body result, serves host body result → ∃ word, Answers result word)
    {host : Bytes} {e : PyMesh.Event Nat} (hmoves : e.Moves)
    (hcan : PyMesh.Can (g.meshes host) e)
    (hregular : PyMesh.Regular (serves host) (g.meshes host) e) :
    (PyGateway.step g (.mesh host e)).isSome := by
  have hallowed : PyMesh.Allowed (serves host) (g.meshes host) e :=
    ⟨hregular, fresh_of_moves hmoves⟩
  obtain ⟨mesh, hstep⟩ := Option.isSome_iff_exists.mp
    ((PyMesh.inv_of_reached (hg.lines.reached host)).returns hcan hallowed)
  have hlines := hg.lines.step_of_calls hallowed hstep (calls_of_moves hmoves)
  obtain ⟨answers, ht, _⟩ := hlines.exists_answers
  have hnodup := ht.nodup hg.lines.once
  rw [List.map_append, List.map_map, List.nodup_append] at hnodup
  obtain ⟨_, hnew, hdisjoint⟩ := hnodup
  obtain ⟨handlers, hanswer⟩ : ∃ handlers,
      (((g.meshes host).newCalls mesh e).map Prod.snd).foldlM answer g.handlers =
        some handlers := by
    apply exists_foldlM_answer
    · rw [List.map_map]
      exact hnew
    · intro m hmem
      obtain ⟨m', hm', rfl⟩ := List.mem_map.mp hmem
      obtain ⟨post, hpost, hcaller, _⟩ := ht.of_mem (List.mem_append_right g.made
        (List.mem_map_of_mem (f := fun m => ((host, m.1), m.2)) hm'))
      have hwaits : m'.2.1 ∈ g.posts.map Post.handler := by
        rw [show m'.2.1 = post.handler from hcaller]
        exact List.mem_map_of_mem hpost
      obtain ⟨handler, hget⟩ := (hg.waiting _).mpr hwaits
      have hnone : ownedBy Prod.fst m'.2.1 (g.made.map Prod.snd) = [] := by
        apply ownedBy_eq_nil
        intro m₀ hm₀ heq
        obtain ⟨m₁, hm₁, rfl⟩ := List.mem_map.mp hm₀
        exact hdisjoint _ (List.mem_map_of_mem (f := fun m => m.2.1) hm₁) _
          (List.mem_map_of_mem hm') heq
      have hfold := hg.handlers _ handler hget
      rw [hnone] at hfold
      obtain rfl := Option.some.inj hfold
      exact hget
    · intro m hmem
      obtain ⟨m', hm', rfl⟩ := List.mem_map.mp hmem
      obtain ⟨post, _, _, hserves⟩ := ht.of_mem (List.mem_append_right g.made
        (List.mem_map_of_mem (f := fun m => ((host, m.1), m.2)) hm'))
      exact hwords _ _ _ hserves
  rw [step_mesh_eq_some_iff.mpr ⟨hmoves, mesh, handlers, hstep, hanswer, rfl⟩]
  rfl

end

/-! ## Two hosts -/

/-- Providers that have one answer to each body. -/
def answering (answer : Bytes → Bytes → Bytes) (host body result : Bytes) : Prop :=
  result = answer host body

/-- `Regular`, by computation. -/
def checkRegular (answer : Bytes → Bytes → Bytes) (g : PyGateway) : Event → Bool
  | .post getArgument id =>
    match g.endPoints.choice.2, makeActRequest getArgument id with
    | some _, some request => (encodeActKey request.key).isSome &&
        request.encodeBody.isSome && (makeDubboRequest request).encode.isSome
    | _, _ => true
  | .mesh host e => PyMesh.checkRegular (answer host) (g.meshes host) e

/-- `FreshIds`, by computation. -/
def checkFresh (g : PyGateway) : Event → Bool
  | .post getArgument id =>
    match g.endPoints.choice.2, makeActRequest getArgument id with
    | some (host, _), some request => (g.meshes host).callers.all fun c =>
        c.1 != request.key || (c.2.conn.callbacks request.id).isNone
    | _, _ => true
  | .mesh host e => PyMesh.checkFresh (g.meshes host) e

def checkAllowed (answer : Bytes → Bytes → Bytes) (g : PyGateway) (e : Event) : Bool :=
  checkRegular answer g e && checkFresh g e

section
variable {answer : Bytes → Bytes → Bytes} {g : PyGateway} {e : Event}

theorem regular_of_check (h : checkRegular answer g e = true) :
    Regular (answering answer) g e := by
  cases e with
  | post getArgument id =>
    intro host port request hchoice hrequest
    simp only [checkRegular, hchoice, hrequest, Bool.and_eq_true] at h
    exact ⟨h.1.1, h.1.2, h.2⟩
  | mesh host e => exact PyMesh.regular_of_check h

theorem allowed_of_check (h : checkAllowed answer g e = true) :
    Allowed (answering answer) g e := by
  rw [checkAllowed, Bool.and_eq_true] at h
  refine ⟨regular_of_check h.1, ?_⟩
  cases e with
  | post getArgument id =>
    intro host port request hchoice hrequest c hc hkey
    have hfree := h.2
    simp only [checkFresh, hchoice, hrequest, List.all_eq_true] at hfree
    simpa [hkey] using hfree c hc
  | mesh host e => exact PyMesh.fresh_of_check h.2

end

def twoHosts : EndPoints := ⟨[⟨[97], 30000, 1⟩, ⟨[98], 30001, 1⟩], [1, 2], 0, 2, [0, 0]⟩

def arguments (value : Bytes) (name : Bytes) : Option Bytes :=
  some (if name = ascii "parameter" then value else [73])

/-- Two POSTs, and one that lacks its arguments. -/
def threePosts : List Event :=
  [.post (arguments [49]) 7, .post (arguments [50, 50]) 7, .post (fun _ => none) 8]

def oneKey : ChannelKey := ⟨[73], [73], [73]⟩

/-- The second word of an answer tells the hosts and the lengths of the bodies apart. -/
def wordOf (host body : Bytes) : Bytes :=
  [49, 10] ++ host ++ [97 + UInt8.ofNat (body.length % 26), 10]

/-- What happens to a connection until its one request has been answered. -/
def oneAnswer (result : Bytes) : List (PyMesh.Event Nat) :=
  [.connect 0, .arrive 0 60] ++ List.replicate 10 (.resume 0) ++
    [.dubbo oneKey .connect, .dubbo oneKey (.reply (dubboReply 0 7 result)),
      .dubbo oneKey (.receive 60), .dubbo oneKey .readCallback, .dubbo oneKey .readCallback,
      .receive 0 60, .readCallback 0, .readCallback 0, .readCallback 0]

/-- The later request is answered first. -/
def twoAnswers : List Event :=
  (oneAnswer [49, 10, 98, 109, 10]).map (.mesh [98]) ++
    (oneAnswer [49, 10, 97, 108, 10]).map (.mesh [97])

def written (g : PyGateway) : List (Option (Bytes × Bool)) :=
  g.handlers.map fun handler => handler.map fun h => (h.written, h.finished)

/-- Every POST has its handler called back at most once, with what the provider at its host has
answered to its own request. -/
theorem sound_of_posts {serves : Bytes → Bytes → Bytes → Prop} {endPoints : EndPoints}
    {g : PyGateway} (h : Reached serves endPoints g) : Sound serves endPoints g := by
  obtain ⟨hg, hturns⟩ := inv_of_reached h
  exact ⟨hg.posts, hg.lines.once, fun _ _ => hg.handled,
    fun _ _ hallowed => hg.takes hturns hallowed,
    fun hwords _ _ hmoves hcan hregular => hg.goesOn hwords hmoves hcan hregular⟩

/-- Both requests carry the same id, one to each host. -/
theorem sound_of_posts_two_hosts : ∃ g : PyGateway, Reached (answering wordOf) twoHosts g ∧
    written g = [some ([97, 108], true), some ([98, 109], true), none] ∧
      Sound (answering wordOf) twoHosts g := by
  have hrun : ((threePosts ++ twoAnswers).foldlM
      (fun g e => if checkAllowed wordOf g e then step g e else none)
      { endPoints := twoHosts }).map written =
      some [some ([97, 108], true), some ([98, 109], true), none] := by decide +kernel
  obtain ⟨g, hreached, hwritten⟩ := Runs.exists_of_foldlM (fun _ _ _ => allowed_of_check) hrun
  exact ⟨g, hreached, hwritten, sound_of_posts hreached⟩

def oneHost : EndPoints := ⟨[⟨[97], 30000, 1⟩], [1], 0, 1, [0]⟩

/-- Two requests with one id on a connection; both are answered, and the first answer is read. -/
def firstAnswer : List (PyMesh.Event Nat) :=
  [.connect 0, .arrive 0 60] ++ List.replicate 13 (.resume 0) ++
    [.dubbo oneKey .connect, .dubbo oneKey (.reply (dubboReply 0 7 [49, 10, 97, 108, 10])),
      .dubbo oneKey (.reply (dubboReply 1 7 [49, 10, 97, 109, 10])), .dubbo oneKey (.receive 60),
      .dubbo oneKey .readCallback, .dubbo oneKey .readCallback, .receive 0 60, .readCallback 0,
      .readCallback 0, .readCallback 0]

def twoPosts : List Event :=
  [.post (arguments [49]) 7, .post (arguments [50, 50]) 7] ++ firstAnswer.map (.mesh [97])

/-- With one id in two POSTs to one host the second handler is finished with the answer to the
request of the first, and the answer to its own raises a `KeyError` in the provider agent. -/
theorem shared_id_misanswered_on_posts : ∃ g : PyGateway,
    Runs (Regular (answering wordOf)) step { endPoints := oneHost } g ∧
      written g = [some ([], false), some ([97, 108], true)] ∧
      ¬ Sound (answering wordOf) oneHost g ∧
      PyMesh.Can (g.meshes [97]) (.dubbo oneKey .readCallback) ∧
      step g (.mesh [97] (.dubbo oneKey .readCallback)) = none := by
  have hrun : (twoPosts.foldlM (fun g e => if checkRegular wordOf g e then step g e else none)
      { endPoints := oneHost }).map (fun g => (g.posts.map fun post =>
          (post.handler, wordOf post.host (makeDubboRequest post.request).body),
        decide (written g = [some ([], false), some ([97, 108], true)]) &&
          (g.meshes [97]).agent.canRead oneKey &&
          (step g (.mesh [97] (.dubbo oneKey .readCallback))).isNone)) =
      some ([(0, [49, 10, 97, 108, 10]), (1, [49, 10, 97, 109, 10])], true) := by
    decide +kernel
  obtain ⟨g, hruns, hg⟩ := Runs.exists_of_foldlM (fun _ _ _ => regular_of_check) hrun
  simp only [Prod.mk.injEq, Bool.and_eq_true, decide_eq_true_eq,
    Option.isNone_iff_eq_none] at hg
  obtain ⟨hposts, ⟨hwritten, hread⟩, hraises⟩ := hg
  refine ⟨g, hruns, hwritten, ?_, Serving.can_of_canRead hread, hraises⟩
  intro hsound
  have hsecond : (written g)[1]? = some (some ([97, 108], true)) := by rw [hwritten]; rfl
  rw [written, List.getElem?_map, Option.map_eq_some_iff] at hsecond
  obtain ⟨handler, hget, hhandler⟩ := hsecond
  obtain ⟨handler, rfl, hword⟩ := Option.map_eq_some_iff.mp hhandler
  obtain ⟨post, hpost, hone, rfl | ⟨result, word, hserves, hanswers, rfl⟩⟩ :=
    hsound.handled 1 handler hget
  · cases hword
  · -- the provider has answered the request of this POST otherwise
    have hmem := List.mem_map_of_mem (f := fun post : Post =>
      (post.handler, wordOf post.host (makeDubboRequest post.request).body)) hpost
    rw [hposts, hone, ← show result = _ from hserves] at hmem
    obtain rfl : result = [49, 10, 97, 109, 10] := by simpa using hmem
    obtain ⟨rfl, _⟩ := Prod.mk.inj hword
    have hsplit := (answers_iff _ _).mp hanswers
    revert hsplit
    decide

end PyGateway

end PyAgent.Python
