import PyAgent.PythonConsumer
import PyAgent.PythonRemote

/-!
# The Python consumer agent and its endpoints

ca.py with everything behind it: for each host a `PAClient`, the provider agent that it
leads to and a provider. A POST has a `RequestHandler` of its own, whose `_callback` is
what `fetch` is given.
-/

namespace PyAgent.Python
set_option autoImplicit false

open Streaming

/-- A POST that has fetched a request; handlers are numbered, and so are the connections to a
host. -/
structure Post where
  handler : Nat
  getArgument : Bytes → Option Bytes
  host : Bytes
  port : Int
  conn : Nat
  request : ActRequest

namespace Post

def line (post : Post) : Bytes × Nat := (post.host, post.conn)

def call (post : Post) : ActRequest × Nat := (post.request, post.handler)

end Post

/-- In place of a handler, `none` where `post` has raised an exception, which Tornado answers. -/
structure PyGateway where
  endPoints : EndPoints
  ports : Bytes → Option Int := fun _ => none
  conns : Bytes → ChannelKey → Option Nat := fun _ _ => none
  meshes : Bytes → PyMesh Nat := fun _ => {}
  handlers : List (Option RequestHandler) := []
  posts : List Post := []
  made : List ((Bytes × Nat) × Nat × ActResponse) := []

/-- Everything that no POST does. -/
def PyMesh.Event.Moves {γ : Type} : PyMesh.Event γ → Prop
  | .create _ | .fetch _ _ _ => False
  | _ => True

/-- The callbacks that an event makes, with their connections. -/
def PyMesh.newCalls {γ : Type} (m m' : PyMesh γ) : PyMesh.Event γ → List (Nat × γ × ActResponse)
  | .readCallback i => ((m'.made i).drop (m.made i).length).map fun made => (i, made)
  | _ => []

namespace PyGateway

inductive Event where
  | post (getArgument : Bytes → Option Bytes) (id : Nat)
  | mesh (host : Bytes) (e : PyMesh.Event Nat)

/-- The client of a host is made for the endpoint that is chosen first. -/
def chose (g : PyGateway) (endPoints : EndPoints) (host : Bytes) (port : Int) : PyGateway :=
  { g with
    endPoints := endPoints
    ports := Function.update g.ports host (some ((g.ports host).getD port)) }

/-- The connection of `PAClient.fetch`. -/
def connection (g : PyGateway) (host : Bytes) (key : ChannelKey) : Option (PyGateway × Nat) :=
  match g.conns host key with
  | some i => some (g, i)
  | none => do
    let i := (g.meshes host).callers.length
    let mesh ← (g.meshes host).step (.create key)
    some ({ g with
      conns := Function.update g.conns host (Function.update (g.conns host) key (some i))
      meshes := Function.update g.meshes host mesh }, i)

/-- The client is made before the arguments are read. -/
def post (g : PyGateway) (getArgument : Bytes → Option Bytes) (id : Nat) : Option PyGateway :=
  let (endPoints, chosen) := g.endPoints.choice
  match chosen with
  | none => some { g with endPoints := endPoints, handlers := g.handlers ++ [none] }
  | some (host, port) =>
    let g := g.chose endPoints host port
    match makeActRequest getArgument id with
    | none => some { g with handlers := g.handlers ++ [none] }
    | some request => do
      let (g, i) ← g.connection host request.key
      let post : Post := ⟨g.handlers.length, getArgument, host, port, i, request⟩
      let mesh ← (g.meshes host).step (.fetch i request post.handler)
      some { g with
        meshes := Function.update g.meshes host mesh
        handlers := g.handlers ++ [some {}]
        posts := g.posts ++ [post] }

/-- `_callback` of a handler; `none` when it raises. -/
def answer (handlers : List (Option RequestHandler)) (made : Nat × ActResponse) :
    Option (List (Option RequestHandler)) := do
  let handler ← handlers[made.1]?.join
  let handler ← IndexHandler.callback handler made.2
  some (handlers.set made.1 (some handler))

/-- `none` where the event cannot happen or a callback raises an exception. -/
def step (g : PyGateway) : Event → Option PyGateway
  | .post getArgument id => g.post getArgument id
  | .mesh _ (.create _) | .mesh _ (.fetch _ _ _) => none
  | .mesh host e => do
    let mesh ← (g.meshes host).step e
    let new := (g.meshes host).newCalls mesh e
    let handlers ← (new.map Prod.snd).foldlM answer g.handlers
    some { g with
      meshes := Function.update g.meshes host mesh
      handlers := handlers
      made := g.made ++ new.map fun made => ((host, made.1), made.2) }

/-- The request of a POST fits into its frames; `serves` says what the provider of each host
answers. -/
def Regular (serves : Bytes → Bytes → Bytes → Prop) (g : PyGateway) : Event → Prop
  | .post getArgument id => ∀ host port request,
      g.endPoints.choice.2 = some (host, port) → makeActRequest getArgument id = some request →
        (encodeActKey request.key).isSome ∧ request.encodeBody.isSome ∧
          (makeDubboRequest request).encode.isSome
  | .mesh host e => PyMesh.Regular (serves host) (g.meshes host) e

/-- No connection that the request of a POST could be fetched on waits for its id. `post` draws one
with `random.randint` and does not look whether it is in use. -/
def FreshIds (g : PyGateway) : Event → Prop
  | .post getArgument id => ∀ host port request,
      g.endPoints.choice.2 = some (host, port) → makeActRequest getArgument id = some request →
        ∀ c ∈ (g.meshes host).callers, c.1 = request.key → c.2.conn.callbacks request.id = none
  | .mesh host e => PyMesh.FreshIds (g.meshes host) e

def Allowed (serves : Bytes → Bytes → Bytes → Prop) (g : PyGateway) (e : Event) : Prop :=
  Regular serves g e ∧ FreshIds g e

def Reached (serves : Bytes → Bytes → Bytes → Prop) (endPoints : EndPoints) : PyGateway → Prop :=
  Runs (Allowed serves) step { endPoints := endPoints }

/-! ## What it is for -/

/-- A provider has answered the request of a POST, and the handler has been finished with the
second word of the answer. -/
def Answered (serves : Bytes → Bytes → Bytes → Prop) (post : Post) (handler : RequestHandler) :
    Prop :=
  ∃ result word, serves post.host (makeDubboRequest post.request).body result ∧
    Answers result word ∧ handler = ⟨word, true⟩

/-- A POST goes to the host that the balancer chooses for it, where the client is that of an
endpoint of this host, with the arguments that are in it. -/
structure Made (endPoints : EndPoints) (ports : Bytes → Option Int) (post : Post) :
    Prop where
  balanced : (endPoints.after post.handler).choice.2 = some (post.host, post.port)
  client : ∃ port, ports post.host = some port ∧
    ∃ k, (endPoints.after k).choice.2 = some (post.host, port)
  request : makeActRequest post.getArgument post.request.id = some post.request

/-- Each handler is that of one POST; nobody has written to it, or it has been answered. A POST that
is allowed is taken, and with answers of two words nothing that can happen to the connections raises
an exception. -/
structure Sound (serves : Bytes → Bytes → Bytes → Prop) (endPoints : EndPoints)
    (g : PyGateway) : Prop where
  made : ∀ post ∈ g.posts, Made endPoints g.ports post
  once : (g.posts.map Post.handler).Nodup
  handled : ∀ (n : Nat) handler, g.handlers[n]? = some (some handler) →
    ∃ post ∈ g.posts, post.handler = n ∧ (handler = {} ∨ Answered serves post handler)
  takes : ∀ getArgument id, Allowed serves g (.post getArgument id) →
    (step g (.post getArgument id)).isSome
  goesOn : (∀ host body result, serves host body result → ∃ word, Answers result word) →
    ∀ host (e : PyMesh.Event Nat), e.Moves → PyMesh.Can (g.meshes host) e →
      PyMesh.Regular (serves host) (g.meshes host) e → (step g (.mesh host e)).isSome

end PyGateway

end PyAgent.Python
