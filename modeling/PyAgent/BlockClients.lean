import PyAgent.Blocks
import PyAgent.PaClient

/-!
# Clients without their blocks

Blocks.lean keeps of a `pa_client` what decides over its blocks. Every step of it is
one of the clients of PaClient.lean, which have the bytes and the contexts instead.
-/

namespace PyAgent.Blocks
set_option autoImplicit false

open Streaming

/-- A client as PaClient.lean has it. -/
structure Client.Matches {γ χ : Type} (c : Client) (client : PaClient γ χ) : Prop where
  key : client.key = c.key
  connected : client.connected = c.connected
  que : client.que = c.que.map Request.act
  callbacks : ∀ id, (client.callbacks id).isSome = c.callbacks id
  contexts : ∀ id, (client.contexts id).isSome = c.callbacks id

/-! ## One function -/

section
variable {sys : Nat → Nat} {sz : Sizes}
variable {γ χ : Type} {c : Client} {client : PaClient γ χ}

theorem isSome_update {δ : Type} {f : Int → Option δ} {known : Int → Bool}
    (h : ∀ id, (f id).isSome = known id) (i : Int) (v : Option δ) (id : Int) :
    (Function.update f i v id).isSome = Function.update known i v.isSome id := by
  rw [Function.apply_update (fun _ => Option.isSome), funext h]


theorem newClient_matches (key : ActReuseKey) (len : FormField → Int) :
    Returns (newClient sys sz key len) fun c => c.Matches (PaClient.create key : PaClient γ χ) := by
  apply Returns.skip
  intro reuseKey
  apply Returns.skip
  intro interface
  apply Returns.skip
  intro method
  apply Returns.skip
  intro pts
  exact .pure ⟨rfl, rfl, rfl, fun _ => rfl, fun _ => rfl⟩

theorem paHandleQueue_matches (h : c.Matches client) :
    Returns (paHandleQueue sys sz c) fun c' => c'.Matches client.handleQueue := by
  unfold paHandleQueue
  split
  · rename_i hon
    have hempty : ∀ writes, Client.Matches { c with que := [], writes := writes }
        client.handleQueue := by
      intro writes
      rw [PaClient.handleQueue, if_pos (h.connected.trans hon)]
      exact ⟨h.key, h.connected, rfl, h.callbacks, h.contexts⟩
    apply Returns.skip
    intro bufs
    apply Returns.skip
    intro bases
    split
    · apply Returns.skip
      intro _
      exact .pure (hempty _)
    · apply Returns.skip
      intro req
      apply Returns.skip
      intro ctx
      exact .pure (hempty _)
  · rename_i hoff
    rw [PaClient.handleQueue, if_neg (by rwa [h.connected])]
    exact .pure h

theorem paOnConn_matches (h : c.Matches client) (status : Int) :
    Returns (paOnConn sys sz c status) fun c' => c'.Matches (client.onConn status) := by
  unfold paOnConn PaClient.onConn
  split
  · exact .pure h
  · apply Returns.skip
    intro base
    apply Returns.skip
    intro buf
    apply Returns.skip
    intro req
    apply Returns.skip
    intro ctx
    exact paHandleQueue_matches ⟨h.key, h.connected, h.que, h.callbacks, h.contexts⟩

theorem paKeyWriteCb_matches (h : c.Matches client) (w : KeyWrite) :
    Returns (paKeyWriteCb sys sz c w 0) fun c' => c'.Matches (client.keyWriteCb 0) := by
  have hconnected : Client.Matches { c with connected := true, keyWrite := none }
      { client with connected := true } := ⟨h.key, rfl, h.que, h.callbacks, h.contexts⟩
  refine Returns.bind (paHandleQueue_matches hconnected) ?_
  intro c' hc'
  apply Returns.skip
  intro _
  apply Returns.skip
  intro _
  apply Returns.skip
  intro _
  apply Returns.skip
  intro _
  exact .pure hc'

theorem paClientFetch_matches (h : c.Matches client) (r : Request) (cb : γ) (context : χ) :
    Returns (paClientFetch sys sz c r) fun c' => c'.Matches (client.fetch r.act cb context) := by
  apply paHandleQueue_matches
  refine ⟨h.key, h.connected, ?_, ?_, ?_⟩
  · simp [h.que]
  · exact isSome_update h.callbacks r.act.id (some cb)
  · exact isSome_update h.contexts r.act.id (some context)

/-- A callback and a context are found together. -/
theorem exists_answer (h : c.Matches client) {resp : ActResponse}
    (hid : c.callbacks resp.id = true) :
    ∃ client', client.answer resp = some client' ∧ Client.Matches { c with
      callbacks := Function.update c.callbacks resp.id false
      answered := c.answered + 1 } client' := by
  obtain ⟨cb, hcb⟩ := Option.isSome_iff_exists.mp ((h.callbacks resp.id).trans hid)
  obtain ⟨context, hcontext⟩ := Option.isSome_iff_exists.mp ((h.contexts resp.id).trans hid)
  refine ⟨_, PaClient.answer_of_some hcb hcontext, h.key, h.connected, h.que, ?_, ?_⟩
  · exact isSome_update h.callbacks resp.id none
  · exact isSome_update h.contexts resp.id none

end

/-! ## One step -/

/-- Related lists, with one place apart. -/
theorem forall₂_set {α β : Type} {R : α → β → Prop} {l : List α} {l' : List β}
    (h : List.Forall₂ R l l') {i : Nat} {a : α} (ha : l[i]? = some a) :
    ∃ b, l'[i]? = some b ∧ R a b ∧
      ∀ a' b', R a' b' → List.Forall₂ R (l.set i a') (l'.set i b') := by
  induction h generalizing i with
  | nil => simp at ha
  | @cons d e l l' hde hrest ih =>
    cases i with
    | zero =>
      obtain rfl : d = a := by simpa using ha
      exact ⟨e, rfl, hde, fun a' b' hab => .cons hab hrest⟩
    | succ i =>
      obtain ⟨b, hb, hab, hset⟩ := ih (by simpa using ha)
      exact ⟨b, by simpa using hb, hab, fun a' b' hab => .cons hde (hset a' b' hab)⟩

variable {γ χ : Type}

/-- What an event does to the clients of PaClient.lean; `cb` and `context` are what `_h_on_body`
passes to `pa_client_fetch`. -/
inductive Moves (cb : γ) (context : χ) :
    Event → List (PaClient γ χ) → List (PaClient γ χ) → Prop where
  | conn {cs} : Moves cb context .conn cs cs
  | body {eidx : Fin 10} {id : Int} {data : Bytes} {p : Nat} {client : PaClient γ χ}
      {act : ActRequest} {cs} {keys : List ActReuseKey} :
      keys.length ≤ 1 → act.id = id → (cs ++ keys.map PaClient.create)[p]? = some client →
        Moves cb context (.body eidx id data) cs
          ((cs ++ keys.map PaClient.create).set p (client.fetch act cb context))
  | paConn {p : Nat} {status : Int} {client : PaClient γ χ} {cs} : cs[p]? = some client →
      Moves cb context (.paConn p status) cs (cs.set p (client.onConn status))
  | keyWritten {p : Nat} {client : PaClient γ χ} {cs} : cs[p]? = some client →
      Moves cb context (.keyWritten p) cs (cs.set p (client.keyWriteCb 0))
  | written {p i : Nat} {cs} : Moves cb context (.written p i) cs cs
  | response {p : Nat} {resp : ActResponse} {client client' : PaClient γ χ} {cs} :
      cs[p]? = some client → client.answer resp = some client' →
        Moves cb context (.response p resp) cs (cs.set p client')
  | doneWritten {i : Nat} {cs} : Moves cb context (.doneWritten i) cs cs

namespace Agent
variable {sys : Nat → Nat} {sz : Sizes} {x x' : Agent} {cs : List (PaClient γ χ)}

theorem onClient_matches (h : List.Forall₂ Client.Matches x.clients cs) {p : Nat}
    {f : Client → Alloc Client} {g : PaClient γ χ → PaClient γ χ}
    (hf : ∀ c client, c.Matches client → Returns (f c) fun c' => c'.Matches (g client))
    (hstep : x.onClient p f = some x') :
    ∃ client, cs[p]? = some client ∧
      List.Forall₂ Client.Matches x'.clients (cs.set p (g client)) := by
  obtain ⟨c, hc, hstep⟩ := Option.bind_eq_some_iff.mp hstep
  obtain ⟨⟨c', m⟩, hrun, rfl⟩ := Option.map_eq_some_iff.mp hstep
  obtain ⟨client, hclient, hmatches, hset⟩ := forall₂_set h hc
  exact ⟨client, hclient, hset c' _ (hf c client hmatches _ _ _ hrun)⟩

theorem clientsFor_matches (h : List.Forall₂ Client.Matches x.clients cs) (server : CaServer)
    (len : FormField → Int) : Returns (x.clientsFor sys sz server len) fun clients =>
      ∃ keys : List ActReuseKey, keys.length ≤ 1 ∧
        List.Forall₂ Client.Matches clients (cs ++ keys.map PaClient.create) := by
  unfold clientsFor
  split
  · apply Returns.pure
    refine ⟨[], Nat.zero_le _, ?_⟩
    rwa [List.map_nil, List.append_nil]
  · rename_i key _
    have hnew : Returns (newClient sys sz key len) fun c =>
        c.Matches (PaClient.create key : PaClient γ χ) := newClient_matches key len
    refine hnew.bind ?_
    intro c hc
    apply Returns.pure
    refine ⟨[key], Nat.le_refl _, ?_⟩
    exact List.rel_append h (.cons hc .nil)

/-- A step of the agent is a step of the clients. -/
theorem step_moves (cb : γ) (context : χ) (h : List.Forall₂ Client.Matches x.clients cs) {e : Event}
    (hstep : step sys sz x e = some x') :
    ∃ cs', Moves cb context e cs cs' ∧ List.Forall₂ Client.Matches x'.clients cs' := by
  cases e with
  | conn =>
    obtain ⟨_, _, rfl⟩ := Option.map_eq_some_iff.mp hstep
    exact ⟨cs, .conn, h⟩
  | body eidx id data =>
    obtain ⟨server, len, act, clients, m, r, m', p, hid, hclients, hr, hstep⟩ :=
      exists_of_onBody hstep
    obtain ⟨keys, hkeys, hmatches⟩ := clientsFor_matches h server len _ _ _ hclients
    have hact : Returns (newRequest sys sz act) fun r => r.act = act := by
      apply Returns.skip
      intro request
      apply Returns.skip
      intro parameter
      exact .pure rfl
    obtain ⟨client, hclient, hset⟩ := onClient_matches
      (x := { x with mem := m', server := server, clients := clients }) hmatches
      (fun c client hc => paClientFetch_matches hc r cb context) hstep
    rw [hact _ _ _ hr] at hset
    exact ⟨_, .body hkeys hid hclient, hset⟩
  | paConn p status =>
    obtain ⟨client, hclient, hset⟩ : ∃ client, cs[p]? = some client ∧
        List.Forall₂ Client.Matches x'.clients (cs.set p (client.onConn status)) := by
      apply onClient_matches h _ hstep
      intro c client hc
      split
      · exact .fail
      · exact paOnConn_matches hc status
    exact ⟨_, .paConn hclient, hset⟩
  | keyWritten p =>
    obtain ⟨client, hclient, hset⟩ : ∃ client, cs[p]? = some client ∧
        List.Forall₂ Client.Matches x'.clients (cs.set p (client.keyWriteCb 0)) := by
      apply onClient_matches h _ hstep
      intro c client hc
      split
      · exact .fail
      · exact paKeyWriteCb_matches hc _
    exact ⟨_, .keyWritten hclient, hset⟩
  | written p i =>
    obtain ⟨client, hclient, hset⟩ : ∃ client, cs[p]? = some client ∧
        List.Forall₂ Client.Matches x'.clients (cs.set p client) := by
      apply onClient_matches h _ hstep
      intro c client hc
      split
      · exact .fail
      · apply Returns.skip
        intro _
        exact .pure ⟨hc.key, hc.connected, hc.que, hc.callbacks, hc.contexts⟩
    obtain ⟨hp, rfl⟩ := List.getElem?_eq_some_iff.mp hclient
    rw [List.set_getElem_self hp] at hset
    exact ⟨cs, .written, hset⟩
  | response p resp =>
    obtain ⟨c, hc, hstep⟩ := Option.bind_eq_some_iff.mp hstep
    split at hstep
    · rename_i hguard
      obtain ⟨_, _, rfl⟩ := Option.map_eq_some_iff.mp hstep
      obtain ⟨client, hclient, hmatches, hset⟩ := forall₂_set h hc
      obtain ⟨client', hanswer, hmatches'⟩ := exists_answer hmatches hguard.2.1
      exact ⟨_, .response hclient hanswer, hset _ _ hmatches'⟩
    · cases hstep
  | doneWritten i =>
    obtain ⟨_, _, hstep⟩ := Option.bind_eq_some_iff.mp hstep
    obtain ⟨_, _, rfl⟩ := Option.map_eq_some_iff.mp hstep
    exact ⟨cs, .doneWritten, h⟩

end Agent

/-! ## Runs -/

inductive Moving (cb : γ) (context : χ) :
    List Event → List (PaClient γ χ) → List (PaClient γ χ) → Prop where
  | nil {cs} : Moving cb context [] cs cs
  | cons {e es cs cs₁ cs'} : Moves cb context e cs cs₁ → Moving cb context es cs₁ cs' →
      Moving cb context (e :: es) cs cs'

theorem foldlM_moving {sys : Nat → Nat} {sz : Sizes} (cb : γ) (context : χ) {es : List Event}
    {x x' : Agent} {cs : List (PaClient γ χ)} (h : List.Forall₂ Client.Matches x.clients cs)
    (hrun : es.foldlM (Agent.step sys sz) x = some x') :
    ∃ cs', Moving cb context es cs cs' ∧ List.Forall₂ Client.Matches x'.clients cs' := by
  induction es generalizing x cs with
  | nil =>
    obtain rfl := Option.some.inj hrun
    exact ⟨cs, .nil, h⟩
  | cons e es ih =>
    obtain ⟨x₁, hstep, hrest⟩ := Option.bind_eq_some_iff.mp hrun
    obtain ⟨cs₁, hmoves, h₁⟩ := Agent.step_moves cb context h hstep
    obtain ⟨cs', hmoving, h'⟩ := ih h₁ hrest
    exact ⟨cs', .cons hmoves hmoving, h'⟩

/-- A run of the agent with its blocks is a run of the clients without them. -/
theorem run_moving {sys : Nat → Nat} {sz : Sizes} {func : Bytes → Nat → Nat} (cb : γ) (context : χ)
    {es : List Event} {x : Agent} (h : Agent.run sys sz func es = some x) :
    ∃ cs, Moving cb context es [] cs ∧ List.Forall₂ Client.Matches x.clients cs :=
  foldlM_moving cb context .nil h

end PyAgent.Blocks
