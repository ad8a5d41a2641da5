import PyAgent.ConsumerAgent
import PyAgent.EtcdLb
import PyAgent.HttpResponse
import PyAgent.MeshProgress

/-!
# From POST to response

The consumer agent of ca.cc with everything behind it: for each endpoint of its load
balancer a provider agent, the connections to it and a provider. A body handed to
`_h_on_body` becomes a request on one of these connections; `act_done_callback`, which
is all that `pa_client_fetch` is ever given, writes to the HTTP connection that the body
came from.
-/

namespace PyAgent
set_option autoImplicit false

open Streaming

/-- The request that `_h_on_body` makes of a form. -/
def Form.request (f : Form) (id : Int) : ActRequest :=
  { id := id, pLen := f.pLen, parameter := f.parameter }

/-- A call of `_h_on_body`: the HTTP connection and the body, the endpoint that was chosen for
it, and the connection and the request that it ended with. -/
structure Post (χ : Type) where
  context : χ
  data : Bytes
  eidx : Fin 10
  client : Nat
  key : ActReuseKey
  request : ActRequest

def Post.call {χ : Type} (post : Post χ) : ClientRuns.Call Unit χ :=
  ⟨post.request, (), post.context⟩

/-- The calls of `act_done_callback` are known with the connections whose answers they are for. -/
structure Gateway (χ : Type) where
  lb : EtcdLb
  ca : CaServer
  meshes : Fin 10 → Mesh Nat Unit χ
  posts : List (Post χ)
  made : List (Nat × Unit × ActResponse × χ)

namespace Gateway
variable {χ : Type}

def start (χ : Type) (func : Bytes → Nat → Nat) (lb : EtcdLb) : Gateway χ :=
  ⟨lb, CaServer.start func, fun _ => Mesh.start Nat Unit χ, [], []⟩

inductive Event (χ : Type) where
  | post (context : χ) (data : Bytes) (id : Int)
  | mesh (eidx : Fin 10) (e : Mesh.Event Nat Unit χ)

/-- `create_pa_client`, for a connection that is not among those created so far. -/
def createPaClient (S : Nat) (g : Gateway χ) (eidx : Fin 10) (client : Nat) (key : ActReuseKey) :
    Option (Mesh Nat Unit χ) :=
  if client < g.ca.created.length then some (g.meshes eidx)
  else (g.meshes eidx).step S (.create client key)

/-- `_h_on_body` -/
def post (S : Nat) (g : Gateway χ) (context : χ) (data : Bytes) (id : Int) :
    Option (Gateway χ) := do
  let (lb, idx) ← g.lb.nextIdx
  if h : idx < 10 then
    let ca ← g.ca.hOnBody ⟨idx, h⟩ id data
    let (client, request) ← ca.fetched.getLast?
    let (_, key) ← ca.created[client]?
    let mesh ← g.createPaClient S ⟨idx, h⟩ client key
    let post : Post χ := ⟨context, data, ⟨idx, h⟩, client, key, request⟩
    let mesh ← mesh.step S (.fetch client post.call)
    some ⟨lb, ca, Function.update g.meshes ⟨idx, h⟩ mesh, g.posts ++ [post], g.made⟩
  else none

/-- The callbacks that an event makes. -/
def newCalls (m m' : Mesh Nat Unit χ) : Mesh.Event Nat Unit χ → List (Nat × Unit × ActResponse × χ)
  | .paRead i _ _ => ((m'.made i).drop (m.made i).length).map fun made => (i, made)
  | _ => []

/-- `none` where the event cannot happen or where the code does not come back from it. -/
def step (S : Nat) (g : Gateway χ) : Event χ → Option (Gateway χ)
  | .post context data id => g.post S context data id
  | .mesh _ (.create _ _) | .mesh _ (.fetch _ _) => none
  | .mesh eidx e => do
    let mesh ← (g.meshes eidx).step S e
    some { g with
      meshes := Function.update g.meshes eidx mesh
      made := g.made ++ newCalls (g.meshes eidx) mesh e }

/-- A form that can be sent: its key can be decoded, and it fits into the frames. -/
structure Sendable (f : Form) (request : ActRequest) : Prop where
  id_nonneg : 0 ≤ request.id
  id_lt : request.id < 2147483648
  wf : request.Wf
  key : ∃ key, f.reuseKey = some key ∧ key.Wf ∧ dubboTotalLen (request.under key) < 2147483648

/-- Bodies that can be sent, and meshes in which everything is as it should be; `serves` says what
the provider of each endpoint answers. -/
def Regular (serves : Fin 10 → Bytes → Bytes → Prop) (g : Gateway χ) : Event χ → Prop
  | .post _ data id => ∀ f, readForm g.ca.hashes data = some f → Sendable f (f.request id)
  | .mesh eidx e => Mesh.Regular (serves eidx) (g.meshes eidx) e

/-- The connection that the hash of a body finds is for the key of that body. The map knows keys by
their hashes alone. -/
def OwnKeys (g : Gateway χ) : Event χ → Prop
  | .post _ data _ => ∀ lb (eidx : Fin 10) f i, g.lb.nextIdx = some (lb, eidx.val) →
      readForm g.ca.hashes data = some f →
      g.ca.paClientMaps eidx (actKeyHash g.ca.hashes f) = some i →
        ∃ key, f.reuseKey = some key ∧ g.ca.created[i]? = some (eidx, key)
  | .mesh _ _ => True

/-- No connection to the endpoint waits for the id of a new request. -/
def FreshIds (g : Gateway χ) : Event χ → Prop
  | .post _ _ id => ∀ lb (eidx : Fin 10) i k, g.lb.nextIdx = some (lb, eidx.val) →
      (g.meshes eidx).clients i = some k → k.env.callbacks id = none
  | .mesh _ _ => True

def Allowed (serves : Fin 10 → Bytes → Bytes → Prop) (g : Gateway χ) (e : Event χ) : Prop :=
  Regular serves g e ∧ OwnKeys g e ∧ FreshIds g e

def Reached (serves : Fin 10 → Bytes → Bytes → Prop) (S : Nat) (func : Bytes → Nat → Nat)
    (lb : EtcdLb) : Gateway χ → Prop :=
  Runs (Allowed serves) (step S) (start χ func lb)

/-! ## What it is for -/

/-- A payload is an answer to a body when the provider of its endpoint gives it for the interface
and the method that the body names, with the parameter that is in it. -/
def Serves (func : Bytes → Nat → Nat) (serves : Fin 10 → Bytes → Bytes → Prop) (post : Post χ)
    (payload : Bytes) : Prop :=
  ∃ f key, readForm (caServerInit func) post.data = some f ∧ f.reuseKey = some key ∧
    serves post.eidx (dubboBody ((f.request post.request.id).under key)) payload

/-- What has been handed to `uv_write` for a HTTP connection, one entry a response. -/
def responses [DecidableEq χ] (g : Gateway χ) (c : χ) : List (Option Bytes) :=
  (ownedBy (fun m => m.2.2.2) c g.made).map fun m => actDoneCallback m.2.2.1

/-- The agent as remote calls: the responses on a HTTP connection are for the bodies that came on
it, and endpoints take turns as `nextIdx` of the balancer says. -/
structure Shows [DecidableEq χ] (lb : EtcdLb) (g : Gateway χ) (r : Remote χ (Post χ) Bytes) :
    Prop where
  balanced : ∀ (n : Nat) post, g.posts[n]? = some post → lb.call n = some post.eidx.val
  issued : r.issued = fun c => ownedBy Post.context c g.posts
  answers : ∀ c, List.Forall₂ (fun answer response => ∃ post, (r.issued c)[answer.1]? = some post ∧
    response = actDoneCallback ⟨post.request.id, answer.2.length, nulPadded answer.2⟩)
      (r.answers c) (g.responses c)

end Gateway
end PyAgent
