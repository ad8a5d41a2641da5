import PyAgent.Form
import Mathlib.Data.List.Forall2

/-!
# Connection reuse in the consumer agent

`_h_on_body` of ca.cc makes a request of every piece of a body it is called with, and
hands it to the connection that the hash of the request's key finds at the endpoint
the load balancer has chosen. A key is sent once, when its connection is opened.
-/

namespace PyAgent
set_option autoImplicit false

/-- The part of `ca_server` that `_h_on_body` uses, and the calls of `create_pa_client` and
`pa_client_fetch` so far. A pointer to a `pa_client` is a place in `created`. -/
structure CaServer where
  hashes : CaHashes
  paClientMaps : Fin 10 → Nat → Option Nat
  created : List (Fin 10 × ActReuseKey)
  fetched : List (Nat × ActRequest)

namespace CaServer

def start (func : Bytes → Nat → Nat) : CaServer := ⟨caServerInit func, fun _ _ => none, [], []⟩

def paClient (server : CaServer) (eidx : Fin 10) (f : Form) : Option (CaServer × Nat) :=
  let keyHs := actKeyHash server.hashes f
  match server.paClientMaps eidx keyHs with
  | some client => some (server, client)
  | none =>
    f.reuseKey.map fun reuseKey =>
      ({ server with
          created := server.created ++ [(eidx, reuseKey)]
          paClientMaps := Function.update server.paClientMaps eidx
            (Function.update (server.paClientMaps eidx) keyHs (some server.created.length)) },
        server.created.length)

/-- `_h_on_body`, where the load balancer has chosen `eidx` and `rand` has returned `id`. -/
def hOnBody (server : CaServer) (eidx : Fin 10) (id : Int) (data : Bytes) : Option CaServer :=
  (readForm server.hashes data).bind fun f =>
    (server.paClient eidx f).map fun r =>
      { r.1 with
        fetched := r.1.fetched ++ [(r.2, { id := id, pLen := f.pLen, parameter := f.parameter })] }

end CaServer

structure BodyCall where
  eidx : Fin 10
  id : Int
  data : Bytes

def CaServer.serve (calls : List BodyCall) (server : CaServer) : Option CaServer :=
  calls.foldlM (fun server call => server.hOnBody call.eidx call.id call.data) server

/-! ## One call -/

namespace CaServer
variable {server server' : CaServer}

/-- What becomes of the server when a connection is looked up: `client` is the one in the map, and
a new entry is for a connection with the key of the request. -/
structure LookedUp (server : CaServer) (eidx : Fin 10) (f : Form) (server' : CaServer)
    (client : Nat) : Prop where
  hashes : server'.hashes = server.hashes
  fetched : server'.fetched = server.fetched
  created : server.created <+: server'.created
  entry : server'.paClientMaps eidx (actKeyHash server.hashes f) = some client
  kept : ∀ e k p, server.paClientMaps e k = some p → server'.paClientMaps e k = some p
  added : ∀ e k p, server'.paClientMaps e k = some p → server.paClientMaps e k = some p ∨
    e = eidx ∧ k = actKeyHash server.hashes f ∧
      ∃ key, f.reuseKey = some key ∧ server'.created[p]? = some (eidx, key)

theorem paClient_spec {eidx : Fin 10} {f : Form} {client : Nat}
    (h : server.paClient eidx f = some (server', client)) :
    LookedUp server eidx f server' client := by
  unfold paClient at h
  cases hentry : server.paClientMaps eidx (actKeyHash server.hashes f) with
  | some p =>
    simp only [hentry, Option.some.injEq, Prod.mk.injEq] at h
    obtain ⟨rfl, rfl⟩ := h
    exact ⟨rfl, rfl, List.prefix_refl _, hentry, fun _ _ _ hp => hp, fun _ _ _ hp => Or.inl hp⟩
  | none =>
    simp only [hentry, Option.map_eq_some_iff, Prod.mk.injEq] at h
    obtain ⟨key, hkey, rfl, rfl⟩ := h
    refine ⟨rfl, rfl, List.prefix_append _ _, by simp, ?_, ?_⟩
    · intro e k p hp
      by_cases he : e = eidx
      · subst he
        have hk : k ≠ actKeyHash server.hashes f := by
          intro heq
          subst heq
          rw [hentry] at hp
          cases hp
        simpa [Function.update_of_ne hk] using hp
      · simpa [Function.update_of_ne he] using hp
    · intro e k p hp
      by_cases he : e = eidx
      · subst he
        by_cases hk : k = actKeyHash server.hashes f
        · subst hk
          simp only [Function.update_self, Option.some.injEq] at hp
          subst hp
          exact Or.inr ⟨rfl, rfl, key, hkey, by simp⟩
        · left
          simpa [Function.update_of_ne hk] using hp
      · left
        simpa [Function.update_of_ne he] using hp

theorem hOnBody_cases {call : BodyCall}
    (h : server.hOnBody call.eidx call.id call.data = some server') :
    ∃ f mid client, readForm server.hashes call.data = some f ∧
      LookedUp server call.eidx f mid client ∧ server' = { mid with
        fetched := server.fetched ++
          [(client, { id := call.id, pLen := f.pLen, parameter := f.parameter })] } := by
  obtain ⟨f, hf, h⟩ := Option.bind_eq_some_iff.mp h
  obtain ⟨⟨mid, client⟩, hclient, rfl⟩ := Option.map_eq_some_iff.mp h
  have hlooked := paClient_spec hclient
  exact ⟨f, mid, client, hf, hlooked, by rw [← hlooked.fetched]⟩

theorem hOnBody_isSome (server : CaServer) (call : BodyCall)
    (h : (formKey server.hashes call.data).isSome) :
    ∃ server', server.hOnBody call.eidx call.id call.data = some server' := by
  obtain ⟨key, hkey⟩ := Option.isSome_iff_exists.mp h
  obtain ⟨f, hf, hkey⟩ := Option.bind_eq_some_iff.mp hkey
  rw [hOnBody, hf, Option.bind_some, paClient]
  cases server.paClientMaps call.eidx (actKeyHash server.hashes f) with
  | some p => exact ⟨_, rfl⟩
  | none =>
    rw [hkey]
    exact ⟨_, rfl⟩

end CaServer

/-! ## Whole runs -/

def HandedTo (server : CaServer) (call : BodyCall) (fetch : Nat × ActRequest) : Prop :=
  ∃ f, readForm server.hashes call.data = some f ∧
    server.paClientMaps call.eidx (actKeyHash server.hashes f) = some fetch.1 ∧
    fetch.2 = { id := call.id, pLen := f.pLen, parameter := f.parameter }

def Opened (server : CaServer) (calls : List BodyCall) : Prop :=
  ∀ e k p, server.paClientMaps e k = some p → ∃ call ∈ calls, ∃ key,
    call.eidx = e ∧ formHash server.hashes call.data = some k ∧
      formKey server.hashes call.data = some key ∧ server.created[p]? = some (e, key)

structure Served (h : CaHashes) (calls : List BodyCall) (server : CaServer) : Prop where
  hashes : server.hashes = h
  handed : List.Forall₂ (HandedTo server) calls server.fetched
  opened : Opened server calls

variable {h : CaHashes} {calls : List BodyCall} {server : CaServer}

theorem Served.hOnBody (hs : Served h calls server) {call : BodyCall} {server' : CaServer}
    (hcall : server.hOnBody call.eidx call.id call.data = some server') :
    Served h (calls ++ [call]) server' := by
  obtain ⟨f, mid, client, hf, hl, rfl⟩ := CaServer.hOnBody_cases hcall
  have hhashes : mid.hashes = server.hashes := hl.hashes
  refine ⟨hhashes.trans hs.hashes, ?_, ?_⟩
  · apply List.rel_append
    · apply hs.handed.imp
      intro c fetch hhanded
      obtain ⟨g, hg, hentry, hreq⟩ := hhanded
      refine ⟨g, ?_, ?_, hreq⟩
      · rw [hhashes]
        exact hg
      · rw [hhashes]
        exact hl.kept _ _ _ hentry
    · refine .cons ⟨f, ?_, ?_, rfl⟩ .nil
      · rw [hhashes]
        exact hf
      · rw [hhashes]
        exact hl.entry
  · intro e k p hp
    rcases hl.added e k p hp with hold | ⟨rfl, rfl, key, hkey, hcreated⟩
    · obtain ⟨c, hc, key, he, hk, hkey, hcreated⟩ := hs.opened e k p hold
      obtain ⟨hlt, _⟩ := List.getElem?_eq_some_iff.mp hcreated
      obtain ⟨more, hmore⟩ := hl.created
      refine ⟨c, List.mem_append_left _ hc, key, he, ?_, ?_, ?_⟩
      · rw [hhashes]
        exact hk
      · rw [hhashes]
        exact hkey
      · simp only [← hmore, List.getElem?_append_left hlt]
        exact hcreated
    · refine ⟨call, by simp, key, rfl, ?_, ?_, hcreated⟩
      · rw [hhashes, formHash, hf]
        rfl
      · rw [hhashes, formKey, hf]
        exact hkey

theorem Served.serve (hs : Served h calls server) {more : List BodyCall} {server' : CaServer}
    (hmore : server.serve more = some server') : Served h (calls ++ more) server' := by
  induction more generalizing calls server with
  | nil =>
    obtain rfl : server = server' := Option.some.inj hmore
    simpa using hs
  | cons call more ih =>
    obtain ⟨mid, hcall, hrest⟩ := Option.bind_eq_some_iff.mp hmore
    have h := ih (hs.hOnBody hcall) hrest
    rwa [List.append_assoc] at h

/-- A call has handed the request of its body to a connection to its endpoint, and this connection
was opened with the request's own key. -/
def OnOwnKey (h : CaHashes) (server : CaServer) (call : BodyCall) (fetch : Nat × ActRequest) :
    Prop :=
  ∃ f key, readForm h call.data = some f ∧ f.reuseKey = some key ∧
    server.created[fetch.1]? = some (call.eidx, key) ∧
    fetch.2 = { id := call.id, pLen := f.pLen, parameter := f.parameter }

theorem OnOwnKey.exists_key {call : BodyCall} {fetch : Nat × ActRequest}
    (hown : OnOwnKey h server call fetch) :
    ∃ key, formKey h call.data = some key ∧
      server.created[fetch.1]? = some (call.eidx, key) := by
  obtain ⟨f, key, hf, hkey, hcreated, _⟩ := hown
  refine ⟨key, ?_, hcreated⟩
  rw [formKey, hf]
  exact hkey

theorem OnOwnKey.key_eq {call call' : BodyCall} {fetch fetch' : Nat × ActRequest}
    (hown : OnOwnKey h server call fetch) (hown' : OnOwnKey h server call' fetch')
    (hsame : fetch.1 = fetch'.1) : formKey h call.data = formKey h call'.data := by
  obtain ⟨key, hkey, hcreated⟩ := hown.exists_key
  obtain ⟨key', hkey', hcreated'⟩ := hown'.exists_key
  rw [hsame, hcreated'] at hcreated
  simp only [Option.some.injEq, Prod.mk.injEq] at hcreated
  rw [hkey, hkey', hcreated.2]

/-- The calls of `_h_on_body` for one message; `lb` and `rand` are what `nextIdx` and `rand` return
from now on. -/
def delivered (lb : Nat → Fin 10) (rand : Nat → Int) (pieces : List Bytes) : List BodyCall :=
  pieces.zipIdx.map fun p => ⟨lb p.2, rand p.2, p.1⟩

/-- The requests some calls pass to `pa_client_fetch`: the key of the connection and the
parameter. -/
def CaServer.sent (server : CaServer) (calls : List BodyCall) :
    Option (List (Option ActReuseKey × Bytes)) :=
  (server.serve calls).map fun server' =>
    (server'.fetched.drop server.fetched.length).map fun fetch =>
      (server'.created[fetch.1]?.map Prod.snd, fetch.2.parameter)

/-- The pieces make one request, the one that the whole body makes. -/
def OneRequest (server : CaServer) (lb : Nat → Fin 10) (rand rand' : Nat → Int)
    (pieces : List Bytes) : Prop :=
  ∃ request, server.sent (delivered lb rand pieces) = some [request] ∧
    server.sent (delivered lb rand' [pieces.flatten]) = some [request]

theorem serve_fetched {server' : CaServer} (hserve : server.serve calls = some server') :
    ∃ more, server'.fetched = server.fetched ++ more ∧ more.length = calls.length := by
  induction calls generalizing server with
  | nil =>
    obtain rfl : server = server' := Option.some.inj hserve
    exact ⟨[], by simp, rfl⟩
  | cons call calls ih =>
    obtain ⟨mid, hcall, hrest⟩ := Option.bind_eq_some_iff.mp hserve
    obtain ⟨f, looked, client, _, _, rfl⟩ := CaServer.hOnBody_cases hcall
    obtain ⟨more, hmore, hlength⟩ := ih hrest
    refine ⟨(client, { id := call.id, pLen := f.pLen, parameter := f.parameter }) :: more, ?_, ?_⟩
    · rw [hmore, List.append_assoc, List.singleton_append]
    · rw [List.length_cons, hlength, List.length_cons]

theorem sent_length {requests : List (Option ActReuseKey × Bytes)}
    (hsent : server.sent calls = some requests) : requests.length = calls.length := by
  obtain ⟨server', hserve, rfl⟩ := Option.map_eq_some_iff.mp hsent
  obtain ⟨more, hmore, hlength⟩ := serve_fetched hserve
  rw [hmore, List.length_map, List.drop_left, hlength]

theorem sent_single (server : CaServer) (eidx : Fin 10) (id : Int) (data : Bytes) :
    server.sent [⟨eidx, id, data⟩] = (readForm server.hashes data).bind fun f =>
      (server.paClient eidx f).map fun r =>
        [(r.1.created[r.2]?.map Prod.snd, f.parameter)] := by
  have hserve : server.serve [⟨eidx, id, data⟩] = server.hOnBody eidx id data := by
    simp only [CaServer.serve, List.foldlM_cons, List.foldlM_nil, bind_pure]
  rw [CaServer.sent, hserve, CaServer.hOnBody]
  cases readForm server.hashes data with
  | none => rfl
  | some f =>
    cases hclient : server.paClient eidx f with
    | none => simp [hclient]
    | some r =>
      have hfetched : r.1.fetched = server.fetched := (CaServer.paClient_spec hclient).fetched
      simp [hclient, hfetched]

/-- A form makes one request when its body comes in one piece, and otherwise it does not. -/
theorem one_request_iff (server : CaServer) (lb : Nat → Fin 10) (rand rand' : Nat → Int)
    {pieces : List Bytes} (hform : (formKey server.hashes pieces.flatten).isSome) :
    OneRequest server lb rand rand' pieces ↔ pieces.length = 1 := by
  constructor
  · intro hone
    obtain ⟨request, hsent, _⟩ := hone
    have hlength := sent_length hsent
    simpa [delivered] using hlength.symm
  · intro hone
    obtain ⟨piece, rfl⟩ := List.length_eq_one_iff.mp hone
    have hwhole : [piece].flatten = piece := by simp
    rw [hwhole] at hform
    have hpieces : ∀ rand : Nat → Int, delivered lb rand [piece] = [⟨lb 0, rand 0, piece⟩] :=
      fun _ => rfl
    obtain ⟨server', hcall⟩ := CaServer.hOnBody_isSome server ⟨lb 0, rand 0, piece⟩ hform
    have hserve : server.serve [⟨lb 0, rand 0, piece⟩] = some server' :=
      Option.bind_eq_some_iff.mpr ⟨server', hcall, rfl⟩
    obtain ⟨requests, hrequests⟩ : ∃ requests,
        server.sent [⟨lb 0, rand 0, piece⟩] = some requests :=
      ⟨_, Option.map_eq_some_iff.mpr ⟨server', hserve, rfl⟩⟩
    obtain ⟨request, rfl⟩ := List.length_eq_one_iff.mp (sent_length hrequests)
    refine ⟨request, ?_, ?_⟩
    · rw [hpieces, hrequests]
    · rw [hwhole, hpieces, ← hrequests, sent_single, sent_single]

theorem one_request_whole :
    OneRequest (CaServer.start bkdrHash) (fun _ => 0) (fun _ => 7) (fun _ => 8)
      [ascii "interface=a&method=b&parameterTypesString=S&parameter=12"] := by
  have hform : (formKey (CaServer.start bkdrHash).hashes
      [ascii "interface=a&method=b&parameterTypesString=S&parameter=12"].flatten).isSome := by
    decide +kernel
  exact (one_request_iff (CaServer.start bkdrHash) (fun _ => 0) (fun _ => 7) (fun _ => 8)
    hform).mpr rfl

/-- The same request cut inside the value of its parameter: what comes first is sent as it is, and
the rest has no fields. -/
theorem two_pieces_cut_parameter :
    let server := CaServer.start bkdrHash
    let first := ascii "interface=a&method=b&parameterTypesString=S&parameter=1"
    let key : ActReuseKey := ⟨ascii "a", 1, ascii "b", 1, ascii "S", 1⟩
    server.sent (delivered (fun _ => 0) (fun _ => 7) [first]) = some [(some key, ascii "1")] ∧
      server.sent (delivered (fun _ => 0) (fun _ => 7) [first ++ ascii "2"]) =
        some [(some key, ascii "12")] ∧
      ¬ OneRequest server (fun _ => 0) (fun _ => 7) (fun _ => 8) [first, ascii "2"] := by
  refine ⟨by decide +kernel, by decide +kernel, ?_⟩
  intro hone
  obtain ⟨request, hsent, _⟩ := hone
  have hlength := sent_length hsent
  cases hlength

end PyAgent
