import PyAgent.Gateway

/-!
# The consumer agent in front of its endpoints

What `_h_on_body` keeps in order while the meshes behind it go on: which connection is
for which endpoint and key, which request went where, and where each callback came from
(`Gateway.Inv`).
-/

namespace PyAgent
set_option autoImplicit false

open Streaming

/-! ## What an event leaves alone -/

namespace Mesh
variable {ι γ χ : Type} [DecidableEq ι] {S : Nat} {m m' : Mesh ι γ χ}

omit [DecidableEq ι] in
theorem fresh_of_ne_fetch {e : Event ι γ χ} (h : ∀ i call, e ≠ .fetch i call) : FreshIds m e := by
  cases e with
  | fetch i call => exact absurd rfl (h i call)
  | _ => trivial

/-- An event changes one client at most, and only a fetch is a call. -/
theorem keeps_of_step {e : Event ι γ χ} (hstep : step S m e = some m') :
    (m'.clients = m.clients ∨ ∃ i k', m'.clients = Function.update m.clients i (some k')) ∧
      ((∀ i call, e ≠ .fetch i call) → m'.issued = m.issued) := by
  cases e with
  | create i key =>
    simp only [step] at hstep
    split at hstep
    · obtain rfl := Option.some.inj hstep
      exact ⟨Or.inr ⟨_, _, rfl⟩, fun _ => rfl⟩
    · cases hstep
  | paConn i status =>
    simp only [step] at hstep
    split at hstep
    · cases hstep
    · simp only [Option.ite_none_right_eq_some, Option.some.injEq] at hstep
      obtain ⟨_, rfl⟩ := hstep
      exact ⟨Or.inr ⟨_, _, rfl⟩, fun _ => rfl⟩
  | paKeyWritten i status =>
    simp only [step] at hstep
    split at hstep
    · cases hstep
    · simp only [Option.ite_none_right_eq_some, Option.some.injEq] at hstep
      obtain ⟨_, rfl⟩ := hstep
      exact ⟨Or.inr ⟨_, _, rfl⟩, fun _ => rfl⟩
  | fetch i call =>
    simp only [step] at hstep
    split at hstep
    · cases hstep
    · obtain rfl := Option.some.inj hstep
      exact ⟨Or.inr ⟨_, _, rfl⟩, fun h => absurd rfl (h i call)⟩
  | accept i block =>
    obtain ⟨_, hstep⟩ := exists_of_ite hstep
    obtain ⟨agent, _, rfl⟩ := Option.map_eq_some_iff.mp hstep
    exact ⟨Or.inl rfl, fun _ => rfl⟩
  | actRead i tie n =>
    obtain ⟨agent, _, rfl⟩ := Option.map_eq_some_iff.mp hstep
    exact ⟨Or.inl rfl, fun _ => rfl⟩
  | dubboConnect status =>
    obtain rfl := Option.some.inj hstep
    exact ⟨Or.inl rfl, fun _ => rfl⟩
  | respond j flags payload =>
    simp only [step] at hstep
    split at hstep
    · cases hstep
    · obtain ⟨_, hstep⟩ := exists_of_ite hstep
      obtain rfl := Option.some.inj hstep
      exact ⟨Or.inl rfl, fun _ => rfl⟩
  | dubboRead tie n =>
    obtain ⟨agent, _, rfl⟩ := Option.map_eq_some_iff.mp hstep
    exact ⟨Or.inl rfl, fun _ => rfl⟩
  | paRead i tie n =>
    simp only [step] at hstep
    split at hstep
    · cases hstep
    · obtain ⟨_, hstep⟩ := exists_of_ite hstep
      obtain ⟨k₁, _, rfl⟩ := Option.map_eq_some_iff.mp hstep
      exact ⟨Or.inr ⟨_, _, rfl⟩, fun _ => rfl⟩

/-- A connection that is there stays. -/
theorem isSome_of_step {e : Event ι γ χ} (hstep : step S m e = some m') {i : ι}
    (hk : (m.clients i).isSome) : (m'.clients i).isSome := by
  rcases (keeps_of_step hstep).1 with h | ⟨j, k', h⟩
  · rw [h]
    exact hk
  · rw [h]
    by_cases hj : i = j
    · subst hj
      rw [Function.update_self]
      rfl
    · rw [Function.update_of_ne hj]
      exact hk

/-- What a client is after an event that is not its creation. -/
theorem client_of_step {e : Event ι γ χ} (hstep : step S m e = some m')
    (hcreate : ∀ i key, e ≠ .create i key) {i : ι} {k' : Link PaReader (PaClient γ χ)}
    (hk' : m'.clients i = some k') : ∃ k, m.clients i = some k ∧ k'.env.key = k.env.key ∧
      k.env.calls <+: k'.env.calls ∧
      ((∀ tie n, e ≠ .paRead i tie n) → k'.env.calls = k.env.calls) := by
  cases change_of_step hstep hk' with
  | create key henv => exact absurd rfl (hcreate i key)
  | same _ hk => exact ⟨k', hk, rfl, List.prefix_refl _, fun _ => rfl⟩
  | paConn status k hk henv =>
    have hkeeps : k'.env.key = k.env.key ∧ k'.env.calls = k.env.calls := by
      rw [henv, PaClient.onConn]
      split
      · exact ⟨rfl, rfl⟩
      · exact ⟨PaClient.handleQueue_key _, PaClient.handleQueue_calls _⟩
    exact ⟨k, hk, hkeeps.1, by rw [hkeeps.2], fun _ => hkeeps.2⟩
  | paKeyWritten status k hk henv =>
    have hkeeps : k'.env.key = k.env.key ∧ k'.env.calls = k.env.calls := by
      rw [henv, PaClient.keyWriteCb]
      split
      · exact ⟨rfl, rfl⟩
      · exact ⟨PaClient.handleQueue_key _, PaClient.handleQueue_calls _⟩
    exact ⟨k, hk, hkeeps.1, by rw [hkeeps.2], fun _ => hkeeps.2⟩
  | fetch call k hk henv =>
    have hkeeps : k'.env.key = k.env.key ∧ k'.env.calls = k.env.calls := by
      rw [henv]
      exact ⟨PaClient.handleQueue_key _, PaClient.handleQueue_calls _⟩
    exact ⟨k, hk, hkeeps.1, by rw [hkeeps.2], fun _ => hkeeps.2⟩
  | paRead tie n chunk k hk hread =>
    obtain ⟨hkey, _⟩ := PaClient.complete_keeps hread
    refine ⟨k, hk, hkey, ?_, fun h => absurd rfl (h tie n)⟩
    refine Link.complete_keeps (paClientReadCbs_implements γ χ)
      (P := fun e => k.env.calls <+: e.calls) ?_ (List.prefix_refl _) hread
    intro client resp client' hclient hanswer
    unfold PaClient.answer at hanswer
    split at hanswer
    · obtain rfl := Option.some.inj hanswer
      exact hclient.trans (List.prefix_append _ _)
    · cases hanswer

end Mesh

namespace Gateway
variable {χ : Type} {S : Nat} {serves : Fin 10 → Bytes → Bytes → Prop}

/-! ## One endpoint -/

/-- The connections to an endpoint are those created for it, and they carry the requests and have
made the callbacks that are known to be theirs. -/
structure EndpointInv (serves : Bytes → Bytes → Prop) (S : Nat)
    (created : List (Fin 10 × ActReuseKey)) (posts : List (Post χ))
    (made : List (Nat × Unit × ActResponse × χ)) (e : Fin 10) (m : Mesh Nat Unit χ) : Prop where
  reached : Mesh.Reached serves S m
  opened : ∀ (i : Nat) key, created[i]? = some (e, key) →
    ∃ k, m.clients i = some k ∧ k.env.key = key
  clients : ∀ i k, m.clients i = some k → created[i]? = some (e, k.env.key)
  issued : ∀ i k, m.clients i = some k →
    m.issued i = (ownedBy Post.client i posts).map Post.call
  calls : ∀ i k, m.clients i = some k → k.env.calls = (ownedBy Prod.fst i made).map Prod.snd

section
variable {serves : Bytes → Bytes → Prop} {created created' : List (Fin 10 × ActReuseKey)}
  {posts posts' : List (Post χ)} {made made' : List (Nat × Unit × ActResponse × χ)} {e : Fin 10}
  {m m' : Mesh Nat Unit χ}

/-- What happens on the connections of other endpoints does not matter. -/
theorem EndpointInv.mono (hm : EndpointInv serves S created posts made e m)
    (hcreated : ∀ (i : Nat) key, created'[i]? = some (e, key) ↔ created[i]? = some (e, key))
    (hposts : ∀ (i : Nat) key, created[i]? = some (e, key) →
      ownedBy Post.client i posts' = ownedBy Post.client i posts)
    (hmade : ∀ (i : Nat) key, created[i]? = some (e, key) →
      ownedBy Prod.fst i made' = ownedBy Prod.fst i made) :
    EndpointInv serves S created' posts' made' e m := by
  refine ⟨hm.reached, ?_, ?_, ?_, ?_⟩
  · exact fun i key h => hm.opened i key ((hcreated i key).mp h)
  · exact fun i k hk => (hcreated i _).mpr (hm.clients i k hk)
  · intro i k hk
    rw [hposts i _ (hm.clients i k hk)]
    exact hm.issued i k hk
  · intro i k hk
    rw [hmade i _ (hm.clients i k hk)]
    exact hm.calls i k hk

/-- A new connection has neither requests nor callbacks. -/
theorem EndpointInv.create (hm : EndpointInv serves S created posts made e m) {key : ActReuseKey}
    (hkey : key.Wf) (hstep : m.step S (.create created.length key) = some m')
    (hissued : m.issued created.length = [])
    (hposts : ownedBy Post.client created.length posts = [])
    (hmade : ownedBy Prod.fst created.length made = []) :
    EndpointInv serves S (created ++ [(e, key)]) posts made e m' := by
  have hreached := hm.reached.tail ⟨.create created.length key, ⟨hkey, trivial⟩, hstep⟩
  have hold : ∀ i k, m.clients i = some k → i < created.length :=
    fun i k hk => (List.getElem?_eq_some_iff.mp (hm.clients i k hk)).1
  have hissued' := (Mesh.keeps_of_step hstep).2 (by simp)
  have hnew : ∃ k', m'.clients = Function.update m.clients created.length (some k') ∧
      k'.env = PaClient.create key := by
    simp only [Mesh.step] at hstep
    split at hstep
    · obtain rfl := Option.some.inj hstep
      exact ⟨_, rfl, rfl⟩
    · cases hstep
  obtain ⟨k', hclients, henv⟩ := hnew
  have hat : ∀ i k, m'.clients i = some k →
      (i = created.length ∧ k = k') ∨ (i ≠ created.length ∧ m.clients i = some k) := by
    intro i k hk
    rw [hclients] at hk
    by_cases hi : i = created.length
    · rw [hi, Function.update_self] at hk
      exact Or.inl ⟨hi, (Option.some.inj hk).symm⟩
    · rw [Function.update_of_ne hi] at hk
      exact Or.inr ⟨hi, hk⟩
  refine ⟨hreached, ?_, ?_, ?_, ?_⟩
  · intro i key' hi
    rw [hclients]
    by_cases heq : i = created.length
    · subst heq
      rw [List.getElem?_concat_length, Option.some.injEq, Prod.mk.injEq] at hi
      rw [Function.update_self]
      exact ⟨k', rfl, by rw [henv]; exact hi.2⟩
    · rw [Function.update_of_ne heq]
      apply hm.opened i key'
      rwa [List.getElem?_append_left] at hi
      have hlt := (List.getElem?_eq_some_iff.mp hi).1
      rw [List.length_append, List.length_singleton] at hlt
      omega
  · intro i k hk
    rcases hat i k hk with ⟨rfl, rfl⟩ | ⟨_, hk⟩
    · rw [List.getElem?_concat_length, henv]
      rfl
    · rw [List.getElem?_append_left (hold i k hk)]
      exact hm.clients i k hk
  · intro i k hk
    rw [hissued']
    rcases hat i k hk with ⟨rfl, rfl⟩ | ⟨_, hk⟩
    · rw [hissued, hposts]
      rfl
    · exact hm.issued i k hk
  · intro i k hk
    rcases hat i k hk with ⟨rfl, rfl⟩ | ⟨_, hk⟩
    · rw [henv, hmade]
      rfl
    · exact hm.calls i k hk

/-- A request is one more on its connection. -/
theorem EndpointInv.fetch (hm : EndpointInv serves S created posts made e m) {post : Post χ}
    (hallowed : Mesh.Allowed serves m (.fetch post.client post.call))
    (hstep : m.step S (.fetch post.client post.call) = some m') :
    EndpointInv serves S created (posts ++ [post]) made e m' := by
  have hreached := hm.reached.tail ⟨_, hallowed, hstep⟩
  have hissued : ∀ i, m'.issued i = m.issued i ++ (ownedBy Post.client i [post]).map Post.call := by
    simp only [Mesh.step] at hstep
    split at hstep
    · cases hstep
    · obtain rfl := Option.some.inj hstep
      intro i
      by_cases hi : i = post.client
      · simp [ownedBy, hi]
      · have hne : post.client ≠ i := fun h => hi h.symm
        simp [ownedBy, hi, hne]
  refine ⟨hreached, ?_, ?_, ?_, ?_⟩
  · intro i key hi
    obtain ⟨k, hk, hkey⟩ := hm.opened i key hi
    obtain ⟨k', hk'⟩ := Option.isSome_iff_exists.mp
      (Mesh.isSome_of_step hstep (Option.isSome_iff_exists.mpr ⟨k, hk⟩))
    obtain ⟨k₀, hk₀, hkey', _⟩ := Mesh.client_of_step hstep (by simp) hk'
    obtain rfl : k = k₀ := Option.some.inj (hk.symm.trans hk₀)
    exact ⟨k', hk', hkey'.trans hkey⟩
  · intro i k' hk'
    obtain ⟨k, hk, hkey, _⟩ := Mesh.client_of_step hstep (by simp) hk'
    rw [hkey]
    exact hm.clients i k hk
  · intro i k' hk'
    obtain ⟨k, hk, _⟩ := Mesh.client_of_step hstep (by simp) hk'
    rw [hissued, hm.issued i k hk, ownedBy_append, List.map_append]
  · intro i k' hk'
    obtain ⟨k, hk, _, _, hcalls⟩ := Mesh.client_of_step hstep (by simp) hk'
    rw [hcalls (by simp)]
    exact hm.calls i k hk

/-- Nothing else makes requests, and the callbacks are those of the connection that is read. -/
theorem EndpointInv.step (hm : EndpointInv serves S created posts made e m)
    {ev : Mesh.Event Nat Unit χ} (hcreate : ∀ i key, ev ≠ .create i key)
    (hfetch : ∀ i call, ev ≠ .fetch i call) (hallowed : Mesh.Allowed serves m ev)
    (hstep : m.step S ev = some m') :
    EndpointInv serves S created posts (made ++ newCalls m m' ev) e m' := by
  have hreached := hm.reached.tail ⟨_, hallowed, hstep⟩
  refine ⟨hreached, ?_, ?_, ?_, ?_⟩
  · intro i key hi
    obtain ⟨k, hk, hkey⟩ := hm.opened i key hi
    obtain ⟨k', hk'⟩ := Option.isSome_iff_exists.mp
      (Mesh.isSome_of_step hstep (Option.isSome_iff_exists.mpr ⟨k, hk⟩))
    obtain ⟨k₀, hk₀, hkey', _⟩ := Mesh.client_of_step hstep hcreate hk'
    obtain rfl : k = k₀ := Option.some.inj (hk.symm.trans hk₀)
    exact ⟨k', hk', hkey'.trans hkey⟩
  · intro i k' hk'
    obtain ⟨k, hk, hkey, _⟩ := Mesh.client_of_step hstep hcreate hk'
    rw [hkey]
    exact hm.clients i k hk
  · intro i k' hk'
    obtain ⟨k, hk, _⟩ := Mesh.client_of_step hstep hcreate hk'
    rw [(Mesh.keeps_of_step hstep).2 hfetch]
    exact hm.issued i k hk
  · intro i k' hk'
    obtain ⟨k, hk, _, hgrows, hsame⟩ := Mesh.client_of_step hstep hcreate hk'
    rw [ownedBy_append, List.map_append, ← hm.calls i k hk]
    by_cases hread : ∃ tie n, ev = .paRead i tie n
    · obtain ⟨tie, n, rfl⟩ := hread
      have hmade : m.made i = k.env.calls := by rw [Mesh.made, hk, Option.elim_some]
      have hmade' : m'.made i = k'.env.calls := by rw [Mesh.made, hk', Option.elim_some]
      have hown : ∀ c ∈ newCalls m m' (.paRead i tie n), c.1 = i := by
        intro c hc
        obtain ⟨_, _, rfl⟩ := List.mem_map.mp hc
        rfl
      rw [ownedBy_eq_self hown, newCalls, List.map_map, hmade, hmade']
      obtain ⟨more, hmore⟩ := hgrows
      simp [← hmore, Function.comp_def]
    · have hnone : ownedBy Prod.fst i (newCalls m m' ev) = [] := by
        apply ownedBy_eq_nil
        intro c hc heq
        cases ev with
        | paRead j tie n =>
          obtain ⟨made, _, rfl⟩ := List.mem_map.mp hc
          obtain rfl : j = i := heq
          exact hread ⟨tie, n, rfl⟩
        | _ => cases hc
      rw [hnone, List.map_nil, List.append_nil]
      exact hsame fun tie n heq => hread ⟨tie, n, heq⟩

end

/-! ## One body -/

/-- A connection has been created for a hash at an endpoint. -/
def opened (g : Gateway χ) (eidx : Fin 10) (hs : Nat) (key : ActReuseKey) (mesh : Mesh Nat Unit χ) :
    Gateway χ :=
  { g with
    ca := { g.ca with
      created := g.ca.created ++ [(eidx, key)]
      paClientMaps := Function.update g.ca.paClientMaps eidx
        (Function.update (g.ca.paClientMaps eidx) hs (some g.ca.created.length)) }
    meshes := Function.update g.meshes eidx mesh }

/-- A request has been fetched on a connection that was there. -/
def sent (g : Gateway χ) (lb : EtcdLb) (post : Post χ) (mesh : Mesh Nat Unit χ) : Gateway χ :=
  { g with
    lb := lb
    ca := { g.ca with fetched := g.ca.fetched ++ [(post.client, post.request)] }
    meshes := Function.update g.meshes post.eidx mesh
    posts := g.posts ++ [post] }

variable {g g' : Gateway χ}

theorem hOnBody_cases {eidx : Fin 10} {id : Int} {data : Bytes} {ca ca' : CaServer}
    (h : ca.hOnBody eidx id data = some ca') : ∃ f, readForm ca.hashes data = some f ∧
      ((∃ client, ca.paClientMaps eidx (actKeyHash ca.hashes f) = some client ∧
        ca' = { ca with fetched := ca.fetched ++ [(client, f.request id)] }) ∨
      (∃ key, f.reuseKey = some key ∧
        ca' = { ca with
          created := ca.created ++ [(eidx, key)]
          paClientMaps := Function.update ca.paClientMaps eidx
            (Function.update (ca.paClientMaps eidx) (actKeyHash ca.hashes f)
              (some ca.created.length))
          fetched := ca.fetched ++ [(ca.created.length, f.request id)] })) := by
  obtain ⟨f, hf, h⟩ := Option.bind_eq_some_iff.mp h
  obtain ⟨⟨ca₁, client⟩, hclient, rfl⟩ := Option.map_eq_some_iff.mp h
  refine ⟨f, hf, ?_⟩
  unfold CaServer.paClient at hclient
  cases hentry : ca.paClientMaps eidx (actKeyHash ca.hashes f) with
  | some client₀ =>
    simp only [hentry, Option.some.injEq, Prod.mk.injEq] at hclient
    obtain ⟨rfl, rfl⟩ := hclient
    exact Or.inl ⟨client₀, rfl, rfl⟩
  | none =>
    simp only [hentry, Option.map_eq_some_iff, Prod.mk.injEq] at hclient
    obtain ⟨key, hkey, rfl, rfl⟩ := hclient
    exact Or.inr ⟨key, hkey, rfl⟩

/-- `_h_on_body` fetches on the connection it finds, or on one it creates. -/
theorem post_cases {context : χ} {data : Bytes} {id : Int}
    (h : g.post S context data id = some g') : ∃ lb f post mesh g₁,
      g.lb.nextIdx = some (lb, (post : Post χ).eidx.val) ∧
      readForm g.ca.hashes data = some f ∧ post.context = context ∧ post.data = data ∧
      post.request = f.request id ∧
      ((g₁ = g ∧ g.ca.paClientMaps post.eidx (actKeyHash g.ca.hashes f) = some post.client ∧
        ∃ e, g.ca.created[post.client]? = some (e, post.key)) ∨
      (f.reuseKey = some post.key ∧ post.client = g.ca.created.length ∧ ∃ mesh₁,
        (g.meshes post.eidx).step S (.create g.ca.created.length post.key) = some mesh₁ ∧
        g₁ = g.opened post.eidx (actKeyHash g.ca.hashes f) post.key mesh₁)) ∧
      (g₁.meshes post.eidx).step S (.fetch post.client post.call) = some mesh ∧
      g' = g₁.sent lb post mesh := by
  unfold post at h
  obtain ⟨⟨lb, idx⟩, hlb, h⟩ := Option.bind_eq_some_iff.mp h
  dsimp only at h
  split at h
  · rename_i hidx
    obtain ⟨ca, hca, h⟩ := Option.bind_eq_some_iff.mp h
    obtain ⟨⟨client, request⟩, hfetched, h⟩ := Option.bind_eq_some_iff.mp h
    obtain ⟨⟨e, key⟩, hcreated, h⟩ := Option.bind_eq_some_iff.mp h
    obtain ⟨mesh₁, hmesh₁, h⟩ := Option.bind_eq_some_iff.mp h
    obtain ⟨mesh, hmesh, h⟩ := Option.bind_eq_some_iff.mp h
    obtain rfl := Option.some.inj h
    let post : Post χ := ⟨context, data, ⟨idx, hidx⟩, client, key, request⟩
    obtain ⟨f, hf, ⟨client₀, hentry, rfl⟩ | ⟨key₀, hkey, rfl⟩⟩ := hOnBody_cases hca
    · obtain ⟨rfl, rfl⟩ : client = client₀ ∧ request = f.request id := by
        simpa [eq_comm] using hfetched
      have hlt : client < g.ca.created.length := (List.getElem?_eq_some_iff.mp hcreated).1
      rw [createPaClient, if_pos hlt] at hmesh₁
      obtain rfl := Option.some.inj hmesh₁
      exact ⟨lb, f, post, mesh, g, hlb, hf, rfl, rfl, rfl, Or.inl ⟨rfl, hentry, e, hcreated⟩, hmesh,
        rfl⟩
    · obtain ⟨rfl, rfl⟩ : client = g.ca.created.length ∧ request = f.request id := by
        simpa [eq_comm] using hfetched
      rw [createPaClient, if_neg (Nat.lt_irrefl _)] at hmesh₁
      obtain ⟨rfl, rfl⟩ : e = ⟨idx, hidx⟩ ∧ key = key₀ := by
        simpa [eq_comm] using hcreated
      refine ⟨lb, f, post, mesh, g.opened ⟨idx, hidx⟩ (actKeyHash g.ca.hashes f) key mesh₁, hlb, hf,
        rfl, rfl, rfl, Or.inr ⟨hkey, rfl, mesh₁, hmesh₁, rfl⟩, ?_, ?_⟩
      · simp only [opened, post, Function.update_self]
        exact hmesh
      · simp [opened, sent, post]
  · cases h

/-- A mesh moves by itself: connections and requests come from bodies. -/
theorem mesh_cases {eidx : Fin 10} {ev : Mesh.Event Nat Unit χ}
    (h : step S g (.mesh eidx ev) = some g') : (∀ i key, ev ≠ .create i key) ∧
      (∀ i call, ev ≠ .fetch i call) ∧ ∃ mesh, (g.meshes eidx).step S ev = some mesh ∧
      g' = { g with
        meshes := Function.update g.meshes eidx mesh
        made := g.made ++ newCalls (g.meshes eidx) mesh ev } := by
  have hcreate : ∀ i key, ev ≠ .create i key := by
    rintro i key rfl
    cases h
  have hfetch : ∀ i call, ev ≠ .fetch i call := by
    rintro i call rfl
    cases h
  refine ⟨hcreate, hfetch, ?_⟩
  cases ev with
  | create i key => exact absurd rfl (hcreate i key)
  | fetch i call => exact absurd rfl (hfetch i call)
  | dubboConnect status => exact ⟨_, rfl, (Option.some.inj h).symm⟩
  | _ =>
    obtain ⟨mesh, hmesh, hg⟩ := Option.bind_eq_some_iff.mp h
    exact ⟨mesh, hmesh, (Option.some.inj hg).symm⟩

/-- Whatever happens, the connections are those that have been created. -/
def Tracked (g : Gateway χ) : Prop :=
  ∀ e i k, (g.meshes e).clients i = some k → i < g.ca.created.length

theorem Tracked.step (hg : g.Tracked) {ev : Event χ} (hstep : step S g ev = some g') :
    g'.Tracked := by
  cases ev with
  | post context data id =>
    obtain ⟨lb, f, post, mesh, g₁, _, _, _, _, _, hopen, hfetch, rfl⟩ := post_cases hstep
    have hg₁ : g₁.Tracked := by
      rcases hopen with ⟨rfl, _⟩ | ⟨_, _, mesh₁, hcreate, rfl⟩
      · exact hg
      · intro e i k hk
        have hlen : (g.opened post.eidx (actKeyHash g.ca.hashes f) post.key
            mesh₁).ca.created.length = g.ca.created.length + 1 := List.length_append
        rw [hlen]
        by_cases he : e = post.eidx
        · subst he
          simp only [opened, Function.update_self] at hk
          cases Mesh.change_of_step hcreate hk with
          | create _ _ => exact Nat.lt_succ_self _
          | same _ hk => exact Nat.lt_succ_of_lt (hg _ i k hk)
        · simp only [opened, Function.update_of_ne he] at hk
          exact Nat.lt_succ_of_lt (hg e i k hk)
    intro e i k hk
    by_cases he : e = post.eidx
    · subst he
      simp only [sent, Function.update_self] at hk
      obtain ⟨k₀, hk₀, _⟩ := Mesh.client_of_step hfetch (by simp) hk
      exact hg₁ _ i k₀ hk₀
    · simp only [sent, Function.update_of_ne he] at hk
      exact hg₁ e i k hk
  | mesh eidx ev =>
    obtain ⟨hcreate, _, mesh, hmesh, rfl⟩ := mesh_cases hstep
    intro e i k hk
    by_cases he : e = eidx
    · subst he
      simp only [Function.update_self] at hk
      obtain ⟨k₀, hk₀, _⟩ := Mesh.client_of_step hmesh hcreate hk
      exact hg e i k₀ hk₀
    · simp only [Function.update_of_ne he] at hk
      exact hg e i k hk

/-! ## All endpoints -/

/-- A request is its own body's, on a connection to its endpoint that has its own key. -/
structure PostInv (func : Bytes → Nat → Nat) (created : List (Fin 10 × ActReuseKey))
    (post : Post χ) : Prop where
  line : created[post.client]? = some (post.eidx, post.key)
  form : ∃ f, readForm (caServerInit func) post.data = some f ∧ f.reuseKey = some post.key ∧
    post.request = f.request post.request.id

structure Inv (serves : Fin 10 → Bytes → Bytes → Prop) (S : Nat) (func : Bytes → Nat → Nat)
    (lb : EtcdLb) (g : Gateway χ) : Prop where
  endpoint : ∀ e, EndpointInv (serves e) S g.ca.created g.posts g.made e (g.meshes e)
  hashes : g.ca.hashes = caServerInit func
  maps : ∀ e hs i, g.ca.paClientMaps e hs = some i → ∃ key, g.ca.created[i]? = some (e, key)
  posts : ∀ post ∈ g.posts, PostInv func g.ca.created post
  made : ∀ c ∈ g.made, c.1 < g.ca.created.length
  turns : lb.after g.posts.length = some g.lb
  balanced : ∀ (n : Nat) post, g.posts[n]? = some post → lb.call n = some post.eidx.val

section
variable {func : Bytes → Nat → Nat} {lb₀ : EtcdLb}

theorem inv_start (lb : EtcdLb) : Inv serves S func lb (start χ func lb) := by
  have hposts : ∀ (i : Nat) post, (start χ func lb).posts[i]? ≠ some post :=
    fun i post h => nomatch h
  refine ⟨?_, rfl, (fun e hs i h => nomatch h), (fun post h => nomatch h), (fun c h => nomatch h),
    rfl, fun n post h => absurd h (hposts n post)⟩
  intro e
  exact ⟨.refl, (fun i key h => nomatch h), (fun i k hk => nomatch hk),
    (fun i k hk => nomatch hk), (fun i k hk => nomatch hk)⟩

theorem Inv.create (hS : 3 ≤ S) (hcap : toUInt32 S < 2147483648) (hm : Inv serves S func lb₀ g)
    {eidx : Fin 10} {hs : Nat} {key : ActReuseKey} {mesh : Mesh Nat Unit χ} (hkey : key.Wf)
    (hstep : (g.meshes eidx).step S (.create g.ca.created.length key) = some mesh) :
    Inv serves S func lb₀ (g.opened eidx hs key mesh) := by
  have hlines : ∀ i, g.ca.created.length ≤ i → ownedBy Post.client i g.posts = [] := by
    intro i hi
    apply ownedBy_eq_nil
    intro post hpost heq
    have hlt := (List.getElem?_eq_some_iff.mp (hm.posts post hpost).line).1
    omega
  have hcalls : ownedBy Prod.fst g.ca.created.length g.made = [] := by
    apply ownedBy_eq_nil
    intro c hc heq
    have hlt := hm.made c hc
    omega
  have hgrown : ∀ (i : Nat) p, g.ca.created[i]? = some p →
      (g.ca.created ++ [(eidx, key)])[i]? = some p := by
    intro i p hi
    rw [List.getElem?_append_left (List.getElem?_eq_some_iff.mp hi).1]
    exact hi
  refine ⟨?_, hm.hashes, ?_, ?_, ?_, hm.turns, hm.balanced⟩
  · intro e
    have he := hm.endpoint e
    by_cases heq : e = eidx
    · subst heq
      have habsent : (g.meshes e).clients g.ca.created.length = none := by
        by_contra hne
        obtain ⟨k, hk⟩ := Option.ne_none_iff_exists'.mp hne
        have hlt := (List.getElem?_eq_some_iff.mp (he.clients _ k hk)).1
        omega
      obtain ⟨y, hy, _⟩ := Mesh.exists_inv_of_reached hS hcap he.reached
      simp only [opened, Function.update_self]
      exact he.create hkey hstep (hy.absent _ habsent).1 (hlines _ (Nat.le_refl _)) hcalls
    · simp only [opened, Function.update_of_ne heq]
      apply he.mono _ (fun _ _ _ => rfl) (fun _ _ _ => rfl)
      intro i key'
      refine ⟨?_, hgrown i _⟩
      intro hi
      by_cases hlt : i < g.ca.created.length
      · rwa [List.getElem?_append_left hlt] at hi
      · exfalso
        rw [List.getElem?_append_right (by omega)] at hi
        have hmem := List.mem_singleton.mp (List.mem_of_getElem? hi)
        exact heq (congrArg Prod.fst hmem)
  · intro e hs' i hi
    simp only [opened] at hi ⊢
    by_cases heq : e = eidx
    · subst heq
      rw [Function.update_self] at hi
      by_cases hhs : hs' = hs
      · subst hhs
        rw [Function.update_self, Option.some.injEq] at hi
        subst hi
        exact ⟨key, List.getElem?_concat_length⟩
      · rw [Function.update_of_ne hhs] at hi
        obtain ⟨key', hi⟩ := hm.maps e hs' i hi
        exact ⟨key', hgrown i _ hi⟩
    · rw [Function.update_of_ne heq] at hi
      obtain ⟨key', hi⟩ := hm.maps e hs' i hi
      exact ⟨key', hgrown i _ hi⟩
  · intro post hpost
    obtain ⟨hline, hform⟩ := hm.posts post hpost
    exact ⟨hgrown _ _ hline, hform⟩
  · intro c hc
    have hlt := hm.made c hc
    simp only [opened, List.length_append]
    omega

theorem Inv.fetch (hm : Inv serves S func lb₀ g) {lb : EtcdLb} {post : Post χ}
    {mesh : Mesh Nat Unit χ} (hlb : g.lb.nextIdx = some (lb, post.eidx.val))
    (hpost : PostInv func g.ca.created post)
    (hallowed : Mesh.Allowed (serves post.eidx) (g.meshes post.eidx) (.fetch post.client post.call))
    (hstep : (g.meshes post.eidx).step S (.fetch post.client post.call) = some mesh) :
    Inv serves S func lb₀ (g.sent lb post mesh) := by
  refine ⟨?_, hm.hashes, hm.maps, ?_, hm.made, ?_, ?_⟩
  · intro e
    have he := hm.endpoint e
    by_cases heq : e = post.eidx
    · subst heq
      simp only [sent, Function.update_self]
      exact he.fetch hallowed hstep
    · simp only [sent, Function.update_of_ne heq]
      apply he.mono (fun _ _ => Iff.rfl) _ (fun _ _ _ => rfl)
      intro i key hi
      have hne : ∀ post' ∈ [post], post'.client ≠ i := by
        intro post' hmem hi'
        obtain rfl := List.mem_singleton.mp hmem
        have hline := hpost.line
        rw [hi', hi, Option.some.injEq] at hline
        exact heq (congrArg Prod.fst hline)
      rw [ownedBy_append, ownedBy_eq_nil hne, List.append_nil]
  · intro post' hpost'
    rcases List.mem_append.mp hpost' with hold | hnew
    · exact hm.posts post' hold
    · obtain rfl := List.mem_singleton.mp hnew
      exact hpost
  · have hturns := hm.turns
    simp only [sent, List.length_append, List.length_singleton]
    rw [EtcdLb.after, hturns, Option.bind_some, hlb]
    rfl
  · intro n post' hn
    simp only [sent] at hn
    by_cases hlt : n < g.posts.length
    · rw [List.getElem?_append_left hlt] at hn
      exact hm.balanced n post' hn
    · have hlen := (List.getElem?_eq_some_iff.mp hn).1
      rw [List.length_append, List.length_singleton] at hlen
      obtain rfl : n = g.posts.length := by omega
      rw [List.getElem?_concat_length, Option.some.injEq] at hn
      subst hn
      rw [EtcdLb.call, hm.turns, Option.bind_some, hlb]
      rfl

/-- `_h_on_body` hands a request that can be sent to a connection that has its key. -/
theorem Inv.post (hS : 3 ≤ S) (hcap : toUInt32 S < 2147483648) (hm : Inv serves S func lb₀ g)
    {context : χ} {data : Bytes} {id : Int}
    (hallowed : Allowed serves g (.post context data id))
    (hstep : g.post S context data id = some g') : Inv serves S func lb₀ g' := by
  obtain ⟨lb, f, post, mesh, g₁, hlb, hf, rfl, rfl, hrequest, hopen, hfetch, rfl⟩ :=
    post_cases hstep
  obtain ⟨hsendable, hown, hfresh⟩ := hallowed
  obtain ⟨hnonneg, hlt, hwf, key, hkey, hkeyWf, htotal⟩ := hsendable f hf
  have hfree := fun i k => hfresh lb post.eidx i k hlb
  have hid : post.request.id = id := by rw [hrequest]; rfl
  have hform : ∃ f, readForm (caServerInit func) post.data = some f ∧
      f.reuseKey = some key ∧ post.request = f.request post.request.id := by
    rw [hm.hashes] at hf
    exact ⟨f, hf, hkey, by rw [hid]; exact hrequest⟩
  have hready : ∃ h₁ : Inv serves S func lb₀ g₁, g₁.lb = g.lb ∧
      g₁.ca.created[post.client]? = some (post.eidx, key) ∧ post.key = key ∧
      ∀ i k, (g₁.meshes post.eidx).clients i = some k → k.env.callbacks id = none := by
    rcases hopen with ⟨rfl, hentry, e, hcreated⟩ | ⟨hkey', hclient, mesh₁, hcreate, rfl⟩
    · obtain ⟨key', hkey', hline⟩ := hown lb post.eidx f _ hlb hf hentry
      obtain rfl : key = key' := Option.some.inj (hkey.symm.trans hkey')
      rw [hline, Option.some.injEq, Prod.mk.injEq] at hcreated
      exact ⟨hm, rfl, hline, hcreated.2.symm, hfree⟩
    · obtain rfl : key = post.key := Option.some.inj (hkey.symm.trans hkey')
      refine ⟨hm.create hS hcap hkeyWf hcreate, rfl, ?_, rfl, ?_⟩
      · rw [hclient]
        exact List.getElem?_concat_length
      · intro i k hk
        simp only [opened, Function.update_self] at hk
        cases Mesh.change_of_step hcreate hk with
        | create _ henv =>
          rw [henv]
          rfl
        | same _ hk => exact hfree i k hk
  obtain ⟨hm₁, hlb₁, hline, hpostKey, hfree₁⟩ := hready
  rw [← hlb₁] at hlb
  apply hm₁.fetch hlb ⟨by rw [hpostKey]; exact hline, by rw [hpostKey]; exact hform⟩ _ hfetch
  have hcall : post.call.id = id := hid
  rw [← hrequest] at hwf htotal hnonneg hlt
  refine ⟨⟨hwf, hnonneg, hlt, ?_⟩, ?_⟩
  · intro k hk
    have hkline := (hm₁.endpoint post.eidx).clients _ k hk
    rw [hline, Option.some.injEq, Prod.mk.injEq] at hkline
    rw [← hkline.2]
    exact htotal
  · intro i k hk
    rw [hcall]
    exact hfree₁ i k hk

theorem newCalls_client {m m' : Mesh Nat Unit χ} {ev : Mesh.Event Nat Unit χ}
    (hstep : m.step S ev = some m') {c : Nat × Unit × ActResponse × χ}
    (hc : c ∈ newCalls m m' ev) : ∃ k, m'.clients c.1 = some k := by
  cases ev with
  | paRead i tie n =>
    obtain ⟨made, hmade, rfl⟩ := List.mem_map.mp hc
    have hmem := (List.drop_sublist _ _).subset hmade
    cases hk : m'.clients i with
    | none => simp [Mesh.made, hk] at hmem
    | some k => exact ⟨k, rfl⟩
  | _ => cases hc

theorem Inv.mesh (hm : Inv serves S func lb₀ g) {eidx : Fin 10} {ev : Mesh.Event Nat Unit χ}
    (hallowed : Mesh.Regular (serves eidx) (g.meshes eidx) ev)
    (hstep : step S g (.mesh eidx ev) = some g') : Inv serves S func lb₀ g' := by
  obtain ⟨hcreate, hfetch, mesh, hmesh, rfl⟩ := mesh_cases hstep
  have hnew : ∀ c ∈ newCalls (g.meshes eidx) mesh ev, ∃ key,
      g.ca.created[c.1]? = some (eidx, key) := by
    intro c hc
    obtain ⟨k', hk'⟩ := newCalls_client hmesh hc
    obtain ⟨k, hk, _⟩ := Mesh.client_of_step hmesh hcreate hk'
    exact ⟨_, (hm.endpoint eidx).clients _ k hk⟩
  refine ⟨?_, hm.hashes, hm.maps, hm.posts, ?_, hm.turns, hm.balanced⟩
  · intro e
    have he := hm.endpoint e
    by_cases heq : e = eidx
    · subst heq
      simp only [Function.update_self]
      exact he.step hcreate hfetch ⟨hallowed, Mesh.fresh_of_ne_fetch hfetch⟩ hmesh
    · simp only [Function.update_of_ne heq]
      apply he.mono (fun _ _ => Iff.rfl) (fun _ _ _ => rfl)
      intro i key hi
      have hne : ∀ c ∈ newCalls (g.meshes eidx) mesh ev, c.1 ≠ i := by
        intro c hc hci
        obtain ⟨key', hcreated⟩ := hnew c hc
        rw [hci, hi, Option.some.injEq] at hcreated
        exact heq (congrArg Prod.fst hcreated)
      rw [ownedBy_append, ownedBy_eq_nil hne, List.append_nil]
  · intro c hc
    rcases List.mem_append.mp hc with hold | hc
    · exact hm.made c hold
    · obtain ⟨key, hcreated⟩ := hnew c hc
      exact (List.getElem?_eq_some_iff.mp hcreated).1

theorem inv_of_reached (hS : 3 ≤ S) (hcap : toUInt32 S < 2147483648)
    (h : Reached serves S func lb₀ g) : Inv serves S func lb₀ g := by
  induction h with
  | refl => exact inv_start lb₀
  | tail _ hstep ih =>
    obtain ⟨e, hallowed, hstep⟩ := hstep
    cases e with
    | post context data id => exact ih.post hS hcap hallowed hstep
    | mesh eidx ev => exact ih.mesh hallowed.1 hstep

end

end Gateway
end PyAgent
