import PyAgent.EndPoints
import PyAgent.Python
import Mathlib.Data.List.Induction

/-!
# The Python consumer agent

`IndexHandler.post` of ca.py asks the balancer for an endpoint and looks its client up
by the host; the client of pa_client.py keeps a connection for each key. Two endpoints
of one host share the client that was made for the first of them.
-/

namespace PyAgent.Python
set_option autoImplicit false

/-- The tuple `fetch` looks a connection up by. -/
def ActRequest.key (request : ActRequest) : ChannelKey :=
  ⟨request.interface, request.method, request.parameterTypesString⟩

/-- `callbacks` maps ids to the POSTs that wait for them; `stream` holds the requests whose bodies
have been written, after the magic number and the key. -/
structure PAConnection where
  host : Bytes
  port : Int
  key : ChannelKey
  connected : Bool := false
  callbacks : Nat → Option Nat := fun _ => none
  queue : List ActRequest := []
  stream : List ActRequest := []

namespace PAConnection

def processQueue (conn : PAConnection) : PAConnection :=
  if conn.connected then { conn with stream := conn.stream ++ conn.queue, queue := [] } else conn

def onConnect (conn : PAConnection) : PAConnection := { conn with connected := true }.processQueue

def fetch (conn : PAConnection) (request : ActRequest) (callback : Nat) : PAConnection :=
  { conn with
    callbacks := Function.update conn.callbacks request.id (some callback)
    queue := conn.queue ++ [request] }.processQueue

/-- Where a connection goes to and what it was opened for never changes. -/
structure Same (conn conn' : PAConnection) : Prop where
  host : conn'.host = conn.host
  port : conn'.port = conn.port
  key : conn'.key = conn.key

theorem processQueue_same (conn : PAConnection) : Same conn conn.processQueue := by
  unfold processQueue
  split <;> exact ⟨rfl, rfl, rfl⟩

theorem onConnect_same (conn : PAConnection) : Same conn conn.onConnect :=
  ⟨(processQueue_same _).host, (processQueue_same _).port, (processQueue_same _).key⟩

theorem fetch_same (conn : PAConnection) (request : ActRequest) (callback : Nat) :
    Same conn (conn.fetch request callback) :=
  ⟨(processQueue_same _).host, (processQueue_same _).port, (processQueue_same _).key⟩

end PAConnection

structure PAClient where
  host : Bytes
  port : Int
  conns : ChannelKey → Option PAConnection := fun _ => none

namespace PAClient

/-- The connection for the key of a request; a new one is opened to the client's own endpoint. -/
def conn (client : PAClient) (key : ChannelKey) : PAConnection :=
  (client.conns key).getD { host := client.host, port := client.port, key := key }

def setConn (client : PAClient) (key : ChannelKey) (conn : PAConnection) : PAClient :=
  { client with conns := Function.update client.conns key (some conn) }

/-- Also the connection that the request has been handed to. -/
def fetch (client : PAClient) (request : ActRequest) (callback : Nat) : PAClient × PAConnection :=
  let conn := (client.conn request.key).fetch request callback
  (client.setConn request.key conn, conn)

def onConnect (client : PAClient) (key : ChannelKey) : PAClient :=
  match client.conns key with
  | some conn => client.setConn key conn.onConnect
  | none => client

/-- Every connection goes to the endpoint of its client, under the key it is filed by. -/
def Files (client : PAClient) : Prop :=
  ∀ key conn, client.conns key = some conn →
    conn.host = client.host ∧ conn.port = client.port ∧ conn.key = key

theorem files_new (host : Bytes) (port : Int) : Files { host := host, port := port } := by
  intro key conn h
  cases h

theorem Files.conn {client : PAClient} (h : client.Files) (key : ChannelKey) :
    (client.conn key).host = client.host ∧ (client.conn key).port = client.port ∧
      (client.conn key).key = key := by
  unfold PAClient.conn
  cases hconn : client.conns key with
  | none => exact ⟨rfl, rfl, rfl⟩
  | some conn => exact h key conn hconn

theorem Files.setConn {client : PAClient} (h : client.Files) {key : ChannelKey}
    {conn : PAConnection}
    (hconn : conn.host = client.host ∧ conn.port = client.port ∧ conn.key = key) :
    (client.setConn key conn).Files := by
  intro key' conn' h'
  simp only [PAClient.setConn] at h' ⊢
  by_cases hkey : key' = key
  · subst hkey
    rw [Function.update_self, Option.some.injEq] at h'
    subst h'
    exact hconn
  · rw [Function.update_of_ne hkey] at h'
    exact h key' conn' h'

theorem Files.fetch {client : PAClient} (h : client.Files) (request : ActRequest)
    (callback : Nat) : (client.fetch request callback).1.Files ∧
      (client.fetch request callback).2.host = client.host ∧
      (client.fetch request callback).2.port = client.port ∧
      (client.fetch request callback).2.key = request.key := by
  obtain ⟨hhost, hport, hkey⟩ := h.conn request.key
  have hsame := (client.conn request.key).fetch_same request callback
  have hconn : (client.fetch request callback).2.host = client.host ∧
      (client.fetch request callback).2.port = client.port ∧
      (client.fetch request callback).2.key = request.key :=
    ⟨hsame.host.trans hhost, hsame.port.trans hport, hsame.key.trans hkey⟩
  exact ⟨h.setConn hconn, hconn⟩

theorem Files.onConnect {client : PAClient} (h : client.Files) (key : ChannelKey) :
    (client.onConnect key).Files := by
  unfold PAClient.onConnect
  split
  · rename_i conn hconn
    obtain ⟨hhost, hport, hkey⟩ := h key conn hconn
    have hsame := conn.onConnect_same
    exact h.setConn ⟨hsame.host.trans hhost, hsame.port.trans hport, hsame.key.trans hkey⟩
  · exact h

theorem onConnect_port (client : PAClient) (key : ChannelKey) :
    (client.onConnect key).host = client.host ∧ (client.onConnect key).port = client.port := by
  unfold PAClient.onConnect
  split <;> exact ⟨rfl, rfl⟩

end PAClient

/-! ## ca.py -/

/-- `end_points` and `IndexHandler.pa_client_map`. -/
structure IndexHandler where
  endPoints : EndPoints
  paClientMap : Bytes → Option PAClient

/-- What one POST does: the endpoint that was chosen, the request it makes, and the connection this
is fetched on. -/
structure Outcome where
  chosen : Option (Bytes × Int) := none
  request : Option ActRequest := none
  conn : Option PAConnection := none

/-- `none` is a missing argument, which raises. -/
def makeActRequest (getArgument : Bytes → Option Bytes) (id : Nat) : Option ActRequest := do
  let interface ← getArgument (ascii "interface")
  let method ← getArgument (ascii "method")
  let parameterTypesString ← getArgument (ascii "parameterTypesString")
  let parameter ← getArgument (ascii "parameter")
  some ⟨interface, method, parameterTypesString, id, parameter⟩

namespace IndexHandler

def create (endPoints : EndPoints) : IndexHandler := ⟨endPoints, fun _ => none⟩

def client (h : IndexHandler) (host : Bytes) (port : Int) : PAClient :=
  (h.paClientMap host).getD { host := host, port := port }

def setClient (h : IndexHandler) (host : Bytes) (client : PAClient) : IndexHandler :=
  { h with paClientMap := Function.update h.paClientMap host (some client) }

/-- The client is made before the arguments are read. -/
def post (h : IndexHandler) (getArgument : Bytes → Option Bytes) (id callback : Nat) :
    IndexHandler × Outcome :=
  let (endPoints, chosen) := h.endPoints.choice
  let h := { h with endPoints := endPoints }
  match chosen with
  | none => (h, {})
  | some (host, port) =>
    let client := h.client host port
    match makeActRequest getArgument id with
    | none => (h.setClient host client, { chosen := some (host, port) })
    | some request =>
      let (client, conn) := client.fetch request callback
      (h.setClient host client,
        { chosen := some (host, port), request := some request, conn := some conn })

/-- A connection of the client of `host` comes up. -/
def onConnect (h : IndexHandler) (host : Bytes) (key : ChannelKey) : IndexHandler :=
  match h.paClientMap host with
  | some client => h.setClient host (client.onConnect key)
  | none => h

end IndexHandler

inductive ConsumerEvent where
  | post (getArgument : Bytes → Option Bytes) (id callback : Nat)
  | connect (host : Bytes) (key : ChannelKey)

def IndexHandler.step (h : IndexHandler) : ConsumerEvent → IndexHandler
  | .post getArgument id callback => (h.post getArgument id callback).1
  | .connect host key => h.onConnect host key

def IndexHandler.run (h : IndexHandler) (events : List ConsumerEvent) : IndexHandler :=
  events.foldl IndexHandler.step h

/-! ## Where the requests go -/

/-- In every run the request of every POST is fetched on a connection to the endpoint that was
chosen for it, and under its own key. -/
def Routed (e : EndPoints) : Prop :=
  ∀ (events : List ConsumerEvent) (getArgument : Bytes → Option Bytes) (id callback : Nat),
    let outcome := (((IndexHandler.create e).run events).post getArgument id callback).2
    ∀ host port request, outcome.chosen = some (host, port) →
      makeActRequest getArgument id = some request →
      ∃ conn, outcome.request = some request ∧ outcome.conn = some conn ∧
        conn.host = host ∧ conn.port = port ∧ conn.key = request.key

/-- No two endpoints that the balancer ever returns are on one host. -/
def EndPoints.OnePerHost (e : EndPoints) : Prop :=
  ∀ k k' host port port', (e.after k).choice.2 = some (host, port) →
    (e.after k').choice.2 = some (host, port') → port = port'

namespace IndexHandler

/-- After `n` POSTs: every client goes to an endpoint of its host that was chosen before. -/
structure Holds (e : EndPoints) (n : Nat) (h : IndexHandler) : Prop where
  endPoints : h.endPoints = e.after n
  files : ∀ host client, h.paClientMap host = some client → client.Files
  chosen : ∀ host client, h.paClientMap host = some client → client.host = host ∧
    ∃ k, (e.after k).choice.2 = some (host, client.port)

variable {e : EndPoints} {n : Nat} {h : IndexHandler}

theorem holds_create (e : EndPoints) : (create e).Holds e 0 :=
  ⟨rfl, (fun _ _ h => nomatch h), (fun _ _ h => nomatch h)⟩

theorem Holds.setClient (hh : h.Holds e n) {host : Bytes} {client : PAClient}
    (hfiles : client.Files) (hhost : client.host = host)
    (hchosen : ∃ k, (e.after k).choice.2 = some (host, client.port)) :
    (h.setClient host client).Holds e n := by
  have hall : ∀ host' client', (h.setClient host client).paClientMap host' = some client' →
      client'.Files ∧ client'.host = host' ∧
        ∃ k, (e.after k).choice.2 = some (host', client'.port) := by
    intro host' client' h'
    simp only [IndexHandler.setClient] at h'
    by_cases hsame : host' = host
    · subst hsame
      rw [Function.update_self, Option.some.injEq] at h'
      subst h'
      exact ⟨hfiles, hhost, hchosen⟩
    · rw [Function.update_of_ne hsame] at h'
      exact ⟨hh.files _ _ h', hh.chosen _ _ h'⟩
  exact ⟨hh.endPoints, fun _ _ h' => (hall _ _ h').1, fun _ _ h' => (hall _ _ h').2⟩

/-- The client a POST uses is the one its host has, or a new one for the endpoint just chosen. -/
theorem Holds.client (hh : h.Holds e n) {host : Bytes} {port : Int}
    (hchoice : (e.after n).choice.2 = some (host, port)) :
    (h.client host port).Files ∧ (h.client host port).host = host ∧
      ∃ k, (e.after k).choice.2 = some (host, (h.client host port).port) := by
  unfold IndexHandler.client
  cases hclient : h.paClientMap host with
  | none => exact ⟨PAClient.files_new host port, rfl, n, hchoice⟩
  | some client => exact ⟨hh.files _ _ hclient, hh.chosen _ _ hclient⟩

section
variable {getArgument : Bytes → Option Bytes} {id callback : Nat} {host : Bytes} {port : Int}

theorem post_of_raise (hchoice : h.endPoints.choice.2 = none) :
    h.post getArgument id callback = ({ h with endPoints := h.endPoints.choice.1 }, {}) := by
  simp only [IndexHandler.post, hchoice]

theorem post_of_missing (hchoice : h.endPoints.choice.2 = some (host, port))
    (hrequest : makeActRequest getArgument id = none) :
    h.post getArgument id callback =
      ({ h with endPoints := h.endPoints.choice.1 }.setClient host (h.client host port),
        { chosen := some (host, port) }) := by
  simp only [IndexHandler.post, hchoice, hrequest]
  rfl

theorem post_of_request (hchoice : h.endPoints.choice.2 = some (host, port)) {request : ActRequest}
    (hrequest : makeActRequest getArgument id = some request) :
    h.post getArgument id callback =
      ({ h with endPoints := h.endPoints.choice.1 }.setClient host
          ((h.client host port).fetch request callback).1,
        { chosen := some (host, port), request := some request,
          conn := some ((h.client host port).fetch request callback).2 }) := by
  simp only [IndexHandler.post, hchoice, hrequest]
  rfl

end

theorem Holds.post (hh : h.Holds e n) (getArgument : Bytes → Option Bytes) (id callback : Nat) :
    (h.post getArgument id callback).1.Holds e (n + 1) ∧
      (h.post getArgument id callback).2.chosen = (e.after n).choice.2 ∧
      ∀ host port request, (e.after n).choice.2 = some (host, port) →
        makeActRequest getArgument id = some request →
        ∃ conn, (h.post getArgument id callback).2.request = some request ∧
          (h.post getArgument id callback).2.conn = some conn ∧ conn.host = host ∧
          conn.port = (h.client host port).port ∧ conn.key = request.key := by
  have hnext : Holds e (n + 1) { h with endPoints := h.endPoints.choice.1 } :=
    ⟨by rw [hh.endPoints]; rfl, hh.files, hh.chosen⟩
  cases hchoice : (e.after n).choice.2 with
  | none =>
    rw [post_of_raise (by rw [hh.endPoints, hchoice])]
    exact ⟨hnext, rfl, fun _ _ _ h' => nomatch h'⟩
  | some res =>
    obtain ⟨host, port⟩ := res
    obtain ⟨hfiles, hhost, hchosen⟩ := hh.client hchoice
    have hchoice' : h.endPoints.choice.2 = some (host, port) := by rw [hh.endPoints, hchoice]
    cases hrequest : makeActRequest getArgument id with
    | none =>
      rw [post_of_missing hchoice' hrequest]
      exact ⟨hnext.setClient hfiles hhost hchosen, rfl, fun _ _ _ _ h' => nomatch h'⟩
    | some request =>
      rw [post_of_request hchoice' hrequest]
      obtain ⟨hfiles', hconn, hport, hkey⟩ := hfiles.fetch request callback
      refine ⟨hnext.setClient hfiles' hhost hchosen, rfl, ?_⟩
      rintro _ _ _ ⟨⟩ ⟨⟩
      exact ⟨_, rfl, rfl, hconn.trans hhost, hport, hkey⟩

theorem Holds.onConnect (hh : h.Holds e n) (host : Bytes) (key : ChannelKey) :
    (h.onConnect host key).Holds e n := by
  unfold IndexHandler.onConnect
  split
  · rename_i client hclient
    obtain ⟨hhost, k, hk⟩ := hh.chosen _ _ hclient
    obtain ⟨hsame, hport⟩ := client.onConnect_port key
    refine hh.setClient ((hh.files _ _ hclient).onConnect key) (hsame.trans hhost) ⟨k, ?_⟩
    rw [hport]
    exact hk
  · exact hh

theorem holds_run (e : EndPoints) (events : List ConsumerEvent) :
    ∃ n, ((create e).run events).Holds e n := by
  induction events using List.reverseRecOn with
  | nil => exact ⟨0, holds_create e⟩
  | append_singleton events event ih =>
    obtain ⟨n, hh⟩ := ih
    rw [IndexHandler.run, List.foldl_append]
    cases event with
    | post getArgument id callback => exact ⟨n + 1, (hh.post getArgument id callback).1⟩
    | connect host key => exact ⟨n, hh.onConnect host key⟩

/-- The port that the client of a host was made for. -/
def portOf (h : IndexHandler) (host : Bytes) : Option Int :=
  (h.paClientMap host).map PAClient.port

theorem setClient_portOf (h : IndexHandler) (host : Bytes) (client : PAClient) :
    (h.setClient host client).portOf host = some client.port := by
  simp [IndexHandler.setClient, portOf]

theorem client_portOf {host : Bytes} {p : Int} (hp : h.portOf host = some p) (port : Int) :
    (h.client host port).port = p := by
  obtain ⟨client, hclient, rfl⟩ := Option.map_eq_some_iff.mp hp
  simp [IndexHandler.client, hclient]

theorem post_portOf (getArgument : Bytes → Option Bytes) (id callback : Nat) {host : Bytes}
    {port : Int} (hchoice : h.endPoints.choice.2 = some (host, port)) :
    (h.post getArgument id callback).1.portOf host = some (h.client host port).port := by
  cases hrequest : makeActRequest getArgument id with
  | none =>
    rw [post_of_missing hchoice hrequest]
    exact setClient_portOf _ _ _
  | some request =>
    rw [post_of_request hchoice hrequest]
    exact setClient_portOf _ _ _

/-- Once a host has a client, this is the client of the host. -/
theorem post_keeps (getArgument : Bytes → Option Bytes) (id callback : Nat) {host : Bytes}
    {p : Int} (hp : h.portOf host = some p) :
    (h.post getArgument id callback).1.portOf host = some p := by
  cases hchoice : h.endPoints.choice.2 with
  | none =>
    rw [post_of_raise hchoice]
    exact hp
  | some res =>
    obtain ⟨host', port⟩ := res
    by_cases hsame : host' = host
    · subst hsame
      rw [post_portOf getArgument id callback hchoice, client_portOf hp]
    · have hother : ∀ (h : IndexHandler) client, (h.setClient host' client).portOf host =
          h.portOf host := by
        intro h client
        simp [IndexHandler.setClient, portOf, Function.update_of_ne (Ne.symm hsame)]
      cases hrequest : makeActRequest getArgument id with
      | none =>
        rw [post_of_missing hchoice hrequest, hother]
        exact hp
      | some request =>
        rw [post_of_request hchoice hrequest, hother]
        exact hp

/-- `k` POSTs whose arguments are all empty. -/
def posts (k : Nat) : List ConsumerEvent := List.replicate k (.post (fun _ => some []) 0 0)

theorem run_posts_succ (h : IndexHandler) (k : Nat) :
    h.run (posts (k + 1)) = ((h.run (posts k)).post (fun _ => some []) 0 0).1 := by
  rw [posts, List.replicate_succ', IndexHandler.run, List.foldl_append]
  rfl

theorem holds_posts (e : EndPoints) (k : Nat) : ((create e).run (posts k)).Holds e k := by
  induction k with
  | zero => exact holds_create e
  | succ k ih =>
    rw [run_posts_succ]
    exact (ih.post _ _ _).1

theorem posts_keep (e : EndPoints) {k k' : Nat} (hk : k ≤ k') {host : Bytes} {p : Int}
    (hp : ((create e).run (posts k)).portOf host = some p) :
    ((create e).run (posts k')).portOf host = some p := by
  induction k', hk using Nat.le_induction with
  | base => exact hp
  | succ k' _ ih =>
    rw [run_posts_succ]
    exact post_keeps _ _ _ ih

end IndexHandler

theorem routed_iff_onePerHost (e : EndPoints) : Routed e ↔ e.OnePerHost := by
  constructor
  · intro hrouted
    -- a POST at which `(host, port)` is chosen finds a client that was made for `port`
    have hport : ∀ k host port, (e.after k).choice.2 = some (host, port) →
        (((IndexHandler.create e).run (IndexHandler.posts k)).client host port).port = port := by
      intro k host port hchoice
      obtain ⟨_, hchosen, hfetch⟩ :=
        (IndexHandler.holds_posts e k).post (fun _ => some []) 0 0
      obtain ⟨conn, _, hconn, _, hp, _⟩ := hfetch host port _ hchoice rfl
      obtain ⟨conn', _, hconn', _, hp', _⟩ :=
        hrouted (IndexHandler.posts k) (fun _ => some []) 0 0 host port _
          (hchosen.trans hchoice) rfl
      obtain rfl : conn = conn' := Option.some.inj (hconn.symm.trans hconn')
      exact hp.symm.trans hp'
    have hlater : ∀ k k' host port port', k < k' → (e.after k).choice.2 = some (host, port) →
        (e.after k').choice.2 = some (host, port') → port = port' := by
      intro k k' host port port' hlt hk hk'
      have hmade : ((IndexHandler.create e).run (IndexHandler.posts (k + 1))).portOf host =
          some port := by
        rw [IndexHandler.run_posts_succ]
        have hchoice : ((IndexHandler.create e).run
            (IndexHandler.posts k)).endPoints.choice.2 = some (host, port) := by
          rw [(IndexHandler.holds_posts e k).endPoints, hk]
        rw [IndexHandler.post_portOf _ _ _ hchoice, hport k host port hk]
      have hkept := IndexHandler.posts_keep e hlt hmade
      rw [← hport k' host port' hk', IndexHandler.client_portOf hkept]
    intro k k' host port port' hk hk'
    rcases Nat.lt_trichotomy k k' with hlt | rfl | hlt
    · exact hlater k k' host port port' hlt hk hk'
    · rw [hk] at hk'
      cases hk'
      rfl
    · exact (hlater k' k host port' port hlt hk' hk).symm
  · intro hone events getArgument id callback outcome host port request hchosen hrequest
    obtain ⟨n, hh⟩ := IndexHandler.holds_run e events
    obtain ⟨_, hchosen', hfetch⟩ := hh.post getArgument id callback
    have hchoice := hchosen'.symm.trans hchosen
    obtain ⟨conn, hrequest', hconn, hhost, hport, hkey⟩ := hfetch host port request hchoice hrequest
    obtain ⟨_, _, k, hk⟩ := hh.client hchoice
    exact ⟨conn, hrequest', hconn, hhost, hport.trans (hone k n host _ _ hk hchoice), hkey⟩

/-- For weights that are not negative: no two endpoints of positive weight are on one host. -/
theorem EndPoints.onePerHost_iff {es : List EndPoint} {e : EndPoints}
    (he : EndPoints.init es = some e)
    (hdistinct : es.Pairwise fun a b => (a.host, a.port) ≠ (b.host, b.port))
    (hnonneg : ∀ a ∈ es, 0 ≤ a.weight) :
    e.OnePerHost ↔
      ∀ a ∈ es, ∀ b ∈ es, 0 < a.weight → 0 < b.weight → a.host = b.host → a = b := by
  let sorted := es.mergeSort fun a b => -a.weight ≤ -b.weight
  let ws : List Nat := sorted.map fun a => a.weight.toNat
  have hmem : ∀ a, a ∈ sorted ↔ a ∈ es := fun a => List.mem_mergeSort
  have hcast : sorted.map EndPoint.weight = ws.map Nat.cast := by
    simp only [ws, List.map_map]
    refine List.map_congr_left fun a ha => ?_
    have := hnonneg a ((hmem a).mp ha)
    simp only [Function.comp]
    omega
  have hne : ws ≠ [] := by
    intro hnil
    have hsorted : sorted = [] := by simpa [ws] using hnil
    rw [EndPoints.init] at he
    change EndPoints.ofSorted sorted = some e at he
    rw [hsorted] at he
    cases he
  obtain ⟨e', he', hsearch⟩ := EndPoints.ofSorted_searches hcast hne
  obtain rfl : e' = e := Option.some.inj (he'.symm.trans he)
  have hchosen := hsearch.chosen_iff hcast
  constructor
  · intro hone a ha b hb hapos hbpos hhost
    obtain ⟨k, hk⟩ := (hchosen a.host a.port).mpr ⟨a, (hmem a).mpr ha, hapos, rfl, rfl⟩
    obtain ⟨k', hk'⟩ := (hchosen a.host b.port).mpr ⟨b, (hmem b).mpr hb, hbpos, hhost.symm, rfl⟩
    have hport := hone k k' a.host a.port b.port hk hk'
    by_contra hab
    have hsymm : Std.Symm fun a b : EndPoint => (a.host, a.port) ≠ (b.host, b.port) :=
      ⟨fun _ _ h => h.symm⟩
    exact hdistinct.forall ha hb hab (by rw [hhost, hport])
  · intro hall k k' host port port' hk hk'
    obtain ⟨a, ha, hapos, hahost, rfl⟩ := (hchosen host port).mp ⟨k, hk⟩
    obtain ⟨b, hb, hbpos, hbhost, rfl⟩ := (hchosen host port').mp ⟨k', hk'⟩
    rw [hall a ((hmem a).mp ha) b ((hmem b).mp hb) hapos hbpos (hahost.trans hbhost.symm)]

/-- In every run each request goes where the balancer sent it exactly when no two endpoints that
the balancer returns are on one host: those of positive weight, where no weight is negative. -/
theorem posts_routed_iff {es : List EndPoint} {e : EndPoints} (he : EndPoints.init es = some e)
    (hdistinct : es.Pairwise fun a b => (a.host, a.port) ≠ (b.host, b.port)) :
    (Routed e ↔ e.OnePerHost) ∧ ((∀ a ∈ es, 0 ≤ a.weight) → (Routed e ↔
      ∀ a ∈ es, ∀ b ∈ es, 0 < a.weight → 0 < b.weight → a.host = b.host → a = b)) := by
  refine ⟨routed_iff_onePerHost e, ?_⟩
  intro hnonneg
  rw [routed_iff_onePerHost, EndPoints.onePerHost_iff he hdistinct hnonneg]

/-- Two hosts. -/
theorem posts_routed_two_hosts : ∃ e,
    EndPoints.init [⟨[1], 30000, 2⟩, ⟨[2], 30000, 1⟩] = some e ∧ Routed e := by
  have hinit : ∃ e, EndPoints.init [⟨[1], 30000, 2⟩, ⟨[2], 30000, 1⟩] = some e := by
    rw [EndPoints.init, List.mergeSort_of_pairwise (by decide)]
    exact ⟨_, rfl⟩
  obtain ⟨e, he⟩ := hinit
  exact ⟨e, he, ((posts_routed_iff he (by decide)).2 (by decide)).mpr (by decide)⟩

/-- Two ports of one host: the second POST goes to the first port. -/
theorem posts_misrouted : ∃ e,
    EndPoints.init [⟨[1], 30000, 1⟩, ⟨[1], 30001, 1⟩] = some e ∧ ¬ Routed e := by
  have hinit : ∃ e, EndPoints.init [⟨[1], 30000, 1⟩, ⟨[1], 30001, 1⟩] = some e ∧
      (e.after 0).choice.2 = some ([1], 30000) ∧ (e.after 1).choice.2 = some ([1], 30001) := by
    rw [EndPoints.init, List.mergeSort_of_pairwise (by decide)]
    exact ⟨_, rfl, by decide, by decide⟩
  obtain ⟨e, he, hfirst, hsecond⟩ := hinit
  refine ⟨e, he, ?_⟩
  intro hrouted
  exact absurd ((routed_iff_onePerHost e).mp hrouted 0 1 [1] 30000 30001 hfirst hsecond) (by decide)

end PyAgent.Python
