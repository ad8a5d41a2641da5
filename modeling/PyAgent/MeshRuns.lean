import PyAgent.Mesh

/-!
# Runs of the mesh

The provider agent's side of a run is a run of `Routing`, and each connection is one of
`ClientRuns`: the responses it is sent are those that the provider agent delivers to
it, and the number of its request is its rank among the requests fetched for it.
-/

namespace PyAgent
set_option autoImplicit false

open Streaming

section
variable {τ σ ω κ ε ρ : Type} [DecidableEq τ] {W : Wire τ σ ω} {hook : κ → ω → Option κ}
variable {P : Dialogue W hook ε ρ} {cap : Nat} {x : Exchange σ κ ε ρ}

/-- Several responses at once. -/
def Exchange.replyAll (enc : ρ → Bytes) (rs : List ρ) (x : Exchange σ κ ε ρ) : Exchange σ κ ε ρ :=
  { x with wire := x.wire ++ (rs.map enc).flatten, replies := x.replies ++ rs }

theorem Exchange.Inv.replyAll (hx : x.Inv P cap) {rs : List ρ}
    (hrs : ∀ r ∈ rs, P.framing.good r ∧ ∃ e, x.issued[P.ticket r]? = some e ∧ P.answers e r)
    (honce : ((x.replies ++ rs).map P.ticket).Nodup) :
    (x.replyAll P.framing.enc rs).Inv P cap := by
  induction rs generalizing x with
  | nil =>
    have hsame : x.replyAll P.framing.enc [] = x := by simp [Exchange.replyAll]
    rw [hsame]
    exact hx
  | cons r rs ih =>
    obtain ⟨hgood, e, he, hanswers⟩ := hrs r List.mem_cons_self
    have hfresh : P.ticket r ∉ x.replies.map P.ticket := by
      rw [List.map_append, List.nodup_append] at honce
      intro hmem
      exact honce.2.2 _ hmem _ List.mem_cons_self rfl
    have hnext := ih (hx.reply hgood he hanswers hfresh)
      (fun r' hr' => hrs r' (List.mem_cons_of_mem _ hr')) (by simpa [Exchange.reply] using honce)
    have hsame : (x.reply P.framing.enc r).replyAll P.framing.enc rs =
        x.replyAll P.framing.enc (r :: rs) := by
      simp [Exchange.replyAll, Exchange.reply]
    rw [← hsame]
    exact hnext

/-- Responses that have not been sent yet are not delivered. -/
theorem Exchange.Inv.complete_append (hx : x.Inv P cap) (rs : List ρ) :
    Decoder.complete P.framing.enc (x.replies ++ rs) x.received.length = x.delivered P := by
  refine Decoder.complete_append _ ?_ P.framing.enc_pos
  rw [← hx.stream, List.length_append]
  exact Nat.le_add_right _ _

theorem Exchange.delivered_prefix (P : Dialogue W hook ε ρ) (x : Exchange σ κ ε ρ) :
    x.delivered P <+: x.replies := Decoder.complete_isPrefix _ _ _

end

/-- What has been written stays written. -/
theorem PaClient.socket_handleQueue {γ χ : Type} (client : PaClient γ χ) :
    client.socket <+: client.handleQueue.socket := by
  unfold PaClient.handleQueue
  split
  · exact List.prefix_append _ _
  · exact List.prefix_refl _

theorem PaClient.socket_fetch {γ χ : Type} (client : PaClient γ χ) (req : ActRequest) (cb : γ)
    (context : χ) : client.socket <+: (client.fetch req cb context).socket :=
  PaClient.socket_handleQueue { client with
    que := client.que ++ [req]
    callbacks := Function.update client.callbacks req.id (some cb)
    contexts := Function.update client.contexts req.id (some context) }

theorem PaClient.answer_keeps {γ χ : Type} {client client' : PaClient γ χ} {resp : ActResponse}
    (h : client.answer resp = some client') :
    client'.key = client.key ∧ client'.socket = client.socket ∧
      client'.connected = client.connected ∧ client'.que = client.que := by
  unfold PaClient.answer at h
  split at h
  · obtain rfl := Option.some.inj h
    exact ⟨rfl, rfl, rfl, rfl⟩
  · cases h

/-- A read writes nothing. -/
theorem PaClient.complete_keeps {γ χ : Type} {S tie : Nat} {chunk : Bytes}
    {k k' : Link PaReader (PaClient γ χ)}
    (h : k.complete (paClientReadCbs γ χ) S tie chunk = some k') :
    k'.env.key = k.env.key ∧ k'.env.socket = k.env.socket ∧
      k'.env.connected = k.env.connected := by
  refine Link.complete_keeps (paClientReadCbs_implements γ χ)
    (P := fun e => e.key = k.env.key ∧ e.socket = k.env.socket ∧ e.connected = k.env.connected) ?_
    ⟨rfl, rfl, rfl⟩ h
  intro e resp e' he hanswer
  obtain ⟨hkey, hsocket, hconnected, _⟩ := answer_keeps hanswer
  exact ⟨hkey.trans he.1, hsocket.trans he.2.1, hconnected.trans he.2.2⟩

namespace Mesh
variable {ι γ χ : Type} [DecidableEq ι]

/-! ## Each connection as a run of its own -/

omit [DecidableEq ι] in
theorem take_advance (bs : Bytes) (p n : Nat) :
    bs.take (p + ((bs.drop p).take n).length) = bs.take p ++ (bs.drop p).take n := by
  rw [List.take_add, ← List.prefix_iff_eq_take.mp (List.take_prefix n (bs.drop p))]

omit [DecidableEq ι] in
theorem drop_advance (bs : Bytes) (p n : Nat) :
    bs.drop (p + ((bs.drop p).take n).length) = (bs.drop p).drop n := by
  rw [← List.drop_drop, List.length_take]
  rcases Nat.le_total n (bs.drop p).length with hn | hn
  · rw [Nat.min_eq_left hn]
  · rw [Nat.min_eq_right hn, List.drop_length, List.drop_eq_nil_of_le hn]

/-- The connection a response goes to. -/
def contextOf (y : Routing.State ι) (r : Routing.Reply) : Option ι :=
  (y.issued[r.ticket]?).map Routing.Call.context

/-- The requests fetched for a connection. -/
def fetched (y : Routing.State ι) (i : ι) : List DubboRequest :=
  (ownedBy Routing.Call.context i y.issued).map Routing.Call.request

def deliveredAt (y : Routing.State ι) (i : ι) : List Routing.Reply :=
  ownedBy (contextOf y) (some i) (y.delivered (Routing.dialogue ι))

def ticketAt (y : Routing.State ι) (i : ι) (r : Routing.Reply) : Nat :=
  rank Routing.Call.context i y.issued r.ticket

/-- The responses sent to a connection, each with the number of its call there. -/
def sentAt (y : Routing.State ι) (i : ι) : List Routing.Reply :=
  (deliveredAt y i).map fun r => ⟨ticketAt y i r, r.frame⟩

/-- A response as the connection reads it. -/
def relay (r : Routing.Reply) : ClientRuns.Reply := ⟨r.ticket, r.frame.relayed⟩

/-- All that concerns one connection. -/
structure View (γ χ : Type) where
  link : Link PaReader (PaClient γ χ)
  issued : List (ClientRuns.Call γ χ)
  incoming : Bytes
  returned : Nat
  sent : List Routing.Reply
  fetched : List DubboRequest
  arrived : Nat
  conn : Closing.Conn StreamContext
  unread : Bytes

def heldOf : Closing.Conn StreamContext → Option Nat
  | .live held _ => held
  | _ => none

def view (m : Mesh ι γ χ) (y : Routing.State ι) (i : ι) (k : Link PaReader (PaClient γ χ)) :
    View γ χ :=
  ⟨k, m.issued i, m.incoming i, m.returned i, sentAt y i, fetched y i, m.arrived i,
    m.agent.conns i, unreadOf m.agent.store (heldOf (m.agent.conns i))⟩

namespace View

def exchange (v : View γ χ) : ClientRuns.State γ χ :=
  ⟨v.link, v.incoming.drop v.returned, v.incoming.take v.returned, v.issued,
    v.sent.map relay⟩

def key (v : View γ χ) : ActReuseKey := v.link.env.key

def requests (v : View γ χ) : List ActRequest := v.issued.map ClientRuns.Call.request

/-- The requests that have arrived whole behind the key. -/
def whole (v : View γ χ) : List ActRequest :=
  Decoder.complete paActRequestEncode v.requests (v.arrived - (paEncodeActKey v.key).length)

def Open (v : View γ χ) (j : Nat) (call : ClientRuns.Call γ χ) : Prop :=
  (v.exchange.ledger (ClientRuns.dialogue γ χ v.key)).Open j call

structure Inv (cap : Nat) (v : View γ χ) : Prop where
  client : v.exchange.Inv (ClientRuns.dialogue γ χ v.key) cap
  key : v.key.Wf
  requests : ∀ call ∈ v.issued, call.request.Wf ∧ (0 ≤ call.id ∧ call.id < 2147483648) ∧
    dubboTotalLen (call.request.under v.key) < 2147483648
  fetched : v.fetched = v.whole.map (·.under v.key)
  returned_le : v.returned ≤ v.incoming.length
  arrived_le : v.arrived ≤ v.link.env.socket.length
  unborn : v.conn = .unborn → v.arrived = 0
  not_closed : v.conn ≠ .closed
  live : ∀ held ctx, v.conn = .live held ctx → ∃ block, actWire.ok ctx ∧
    actWire.decoder.Settles (createPaContext block) (v.link.env.socket.take v.arrived) v.fetched ctx
      v.unread

end View

/-- The view of a connection to which more responses have been written. -/
def View.respond (v : View γ χ) (rs : List Routing.Reply) : View γ χ :=
  { v with
    incoming := v.incoming ++ (rs.map fun r => r.frame.relayed.encode).flatten
    sent := v.sent ++ rs }

theorem View.exchange_respond {v : View γ χ} (hle : v.returned ≤ v.incoming.length)
    (rs : List Routing.Reply) : (v.respond rs).exchange =
      v.exchange.replyAll (fun r => r.frame.encode) (rs.map relay) := by
  simp only [View.exchange, View.respond, Exchange.replyAll, List.take_append_of_le_length hle,
    List.drop_append_of_le_length hle, List.map_append, List.map_map]
  rfl

namespace View.Inv
variable {cap : Nat} {v : View γ χ} (hv : v.Inv cap)
include hv

theorem delivered_respond (rs : List Routing.Reply) :
    (v.respond rs).exchange.delivered (ClientRuns.dialogue γ χ v.key) =
      v.exchange.delivered (ClientRuns.dialogue γ χ v.key) := by
  rw [View.exchange_respond hv.returned_le]
  exact hv.client.complete_append _

/-- The key and the bytes of the requests are all that a connection ever sends. -/
theorem socket_length_le : v.link.env.socket.length ≤
    (paEncodeActKey v.key).length + (v.requests.map paActRequestEncode).flatten.length := by
  have hsent : ClientRuns.Sent v.key v.requests v.link.env := hv.client.holds.sent
  obtain ⟨sent, hsplit, ⟨hempty, _⟩ | hsocket⟩ := hsent
  · rw [hempty]
    exact Nat.zero_le _
  · rw [hsocket, hsplit, List.map_append, List.flatten_append, List.length_append,
      List.length_append]
    omega

/-- The connection comes up, its key is written, or anything else that answers nothing. -/
theorem setEnv {client : PaClient γ χ} (hkey : client.key = v.key)
    (hsocket : v.link.env.socket <+: client.socket)
    (hholds : ClientRuns.Holds v.key (v.exchange.ledger (ClientRuns.dialogue γ χ v.key))
      (v.exchange.delivered (ClientRuns.dialogue γ χ v.key)) client) :
    Inv cap { v with link := { v.link with env := client } } := by
  have hkey' : View.key { v with link := { v.link with env := client } } = v.key := hkey
  have htake : client.socket.take v.arrived = v.link.env.socket.take v.arrived := by
    obtain ⟨rest, hrest⟩ := hsocket
    rw [← hrest, List.take_append_of_le_length hv.arrived_le]
  refine ⟨?_, ?_, ?_, ?_, hv.returned_le, hv.arrived_le.trans hsocket.length_le, hv.unborn,
    hv.not_closed, ?_⟩
  · rw [hkey']
    exact hv.client.setEnv hholds
  · rw [hkey']
    exact hv.key
  · rw [hkey']
    exact hv.requests
  · simp only [whole, hkey']
    exact hv.fetched
  · simp only [htake]
    exact hv.live

/-- A request is queued behind the others, and written if the connection is ready. -/
theorem fetch {call : ClientRuns.Call γ χ} (hwf : call.request.Wf)
    (hid : 0 ≤ call.id ∧ call.id < 2147483648)
    (htotal : dubboTotalLen (call.request.under v.key) < 2147483648)
    (hfresh : v.link.env.callbacks call.id = none) :
    Inv cap { v with
      issued := v.issued ++ [call]
      link := { v.link with
        env := v.link.env.fetch call.request call.cb call.context } } := by
  let client := v.link.env.fetch call.request call.cb call.context
  let v' : View γ χ := { v with
    issued := v.issued ++ [call]
    link := { v.link with env := client } }
  have hkey' : v'.key = v.key := PaClient.handleQueue_key _
  have hholds := hv.client.holds
  have hledger : (v.exchange.ledger (ClientRuns.dialogue γ χ v.key)).Fresh ClientRuns.Call.id
      call := by
    intro j call' hopen heq
    have hsome := hholds.callbacks.get hopen
    rw [heq] at hsome
    have hnone : v.exchange.link.env.callbacks call.id = none := hfresh
    rw [hnone] at hsome
    cases hsome
  have hint : IsInt32 call.id := by
    unfold IsInt32
    omega
  have hfetch := hholds.fetch hint hledger
  have hsocket : v.link.env.socket <+: client.socket := PaClient.socket_fetch _ _ _ _
  have htake : client.socket.take v.arrived = v.link.env.socket.take v.arrived := by
    obtain ⟨rest, hrest⟩ := hsocket
    rw [← hrest, List.take_append_of_le_length hv.arrived_le]
  have hwhole : v'.whole = v.whole := by
    have hle := hv.arrived_le.trans hv.socket_length_le
    have hrequests : v'.requests = v.requests ++ [call.request] := by
      simp [v', View.requests]
    rw [View.whole, View.whole, hkey', hrequests]
    exact Decoder.complete_append _ (by show v.arrived - _ ≤ _; omega) paActRequestEncode_pos
  refine ⟨?_, ?_, ?_, ?_, hv.returned_le, hv.arrived_le.trans hsocket.length_le, hv.unborn,
    hv.not_closed, ?_⟩
  · rw [hkey']
    exact hv.client.update hfetch
  · rw [hkey']
    exact hv.key
  · rw [hkey']
    intro c hc
    rcases List.mem_append.mp hc with hc | hc
    · exact hv.requests c hc
    · rw [List.mem_singleton.mp hc]
      exact ⟨hwf, hid, htotal⟩
  · rw [hwhole, hkey']
    exact hv.fetched
  · simp only [client, htake]
    exact hv.live

omit hv in
/-- More of what the provider agent has written arrives. -/
theorem read {S : Nat} (hS : 3 ≤ S) (hcap : toUInt32 S < 2147483648)
    {v : View γ χ} (hv : v.Inv (toUInt32 S)) {tie n : Nat} {k' : Link PaReader (PaClient γ χ)}
    (h : v.link.complete (paClientReadCbs γ χ) S tie ((v.incoming.drop v.returned).take n) =
      some k') :
    Inv (toUInt32 S) { v with
      link := k'
      returned := v.returned + ((v.incoming.drop v.returned).take n).length } := by
  let v' : View γ χ := { v with
    link := k'
    returned := v.returned + ((v.incoming.drop v.returned).take n).length }
  obtain ⟨hkey, hsocket, _⟩ := PaClient.complete_keeps h
  have hread : v.exchange.read (paClientReadCbs γ χ) S tie n = some v'.exchange := by
    have htake := take_advance v.incoming v.returned n
    have hdrop := drop_advance v.incoming v.returned n
    simp only [Exchange.read, View.exchange, h, v', htake, hdrop, Option.map_some]
  have hkey' : v'.key = v.key := hkey
  have hclient := hv.client.of_read (paClientReadCbs_implements γ χ) hS hcap hread
  have hle : v'.returned ≤ v'.incoming.length := by
    have := hv.returned_le
    simp only [v', List.length_take, List.length_drop]
    omega
  refine ⟨?_, ?_, ?_, ?_, hle, ?_, hv.unborn, hv.not_closed, ?_⟩
  · rw [hkey']
    exact hclient
  · rw [hkey']
    exact hv.key
  · rw [hkey']
    exact hv.requests
  · show v.fetched = v'.whole.map (·.under v'.key)
    rw [View.whole, hkey']
    exact hv.fetched
  · rw [hsocket]
    exact hv.arrived_le
  · rw [hsocket]
    exact hv.live

/-- Responses that go to this connection. -/
theorem respond {rs : List Routing.Reply}
    (hrs : ∀ r ∈ rs, r.frame.Wf ∧ ∃ call, v.issued[r.ticket]? = some call ∧ r.frame.id = call.id)
    (honce : ((v.sent ++ rs).map Routing.Reply.ticket).Nodup) : (v.respond rs).Inv cap := by
  have hgood : ∀ r ∈ rs.map relay, r.frame.Wf ∧
      ∃ call, v.issued[r.ticket]? = some call ∧ r.frame.id = call.id := by
    intro r' hr'
    obtain ⟨r, hr, rfl⟩ := List.mem_map.mp hr'
    obtain ⟨hwf, hcall⟩ := hrs r hr
    exact ⟨hwf.relayed, hcall⟩
  have honce' : ((v.sent.map relay ++ rs.map relay).map ClientRuns.Reply.ticket).Nodup := by
    rw [← List.map_append, List.map_map]
    exact honce
  refine ⟨?_, hv.key, hv.requests, hv.fetched, ?_, hv.arrived_le, hv.unborn, hv.not_closed,
    hv.live⟩
  · rw [View.exchange_respond hv.returned_le]
    exact hv.client.replyAll hgood honce'
  · have hle := hv.returned_le
    simp only [View.respond, List.length_append]
    omega

/-- What the provider agent reads of the bytes sent to it. -/
theorem settle (block : StreamContext) {n : Nat} (hn : n ≤ v.link.env.socket.length) :
    ∃ s' us', actWire.decoder.Settles (createPaContext block) (v.link.env.socket.take n)
      ((Decoder.complete paActRequestEncode v.requests
        (n - (paEncodeActKey v.key).length)).map (·.under v.key)) s' us' := by
  obtain ⟨c, hc, hpiece⟩ := key_piece hv.key block
  have hrequests : ∀ r ∈ v.requests, r.Wf := by
    intro r hr
    obtain ⟨call, hcall, rfl⟩ := List.mem_map.mp hr
    exact (hv.requests call hcall).1
  have hstream : v.link.env.socket.take n <+:
      paEncodeActKey v.key ++ (v.requests.map paActRequestEncode).flatten := by
    refine (List.take_prefix n _).trans ?_
    have hsent : ClientRuns.Sent v.key v.requests v.link.env := hv.client.holds.sent
    obtain ⟨sent, hsplit, ⟨hempty, _⟩ | hsocket⟩ := hsent
    · rw [hempty]
      exact List.nil_prefix
    · rw [hsocket, hsplit, List.map_append, List.flatten_append, ← List.append_assoc]
      exact List.prefix_append _ _
  have hsettle := (requestFraming v.key).settle_behind hrequests hpiece hc hstream
  rw [List.length_take, Nat.min_eq_left hn] at hsettle
  exact hsettle

end View.Inv

/-- A call that has not been called back. -/
def OpenAt (m : Mesh ι γ χ) (y : Routing.State ι) (i : ι) (j : Nat)
    (call : ClientRuns.Call γ χ) : Prop :=
  ∃ k, m.clients i = some k ∧ (view m y i k).Open j call

/-- No two of them share an id. -/
def Distinct (m : Mesh ι γ χ) (y : Routing.State ι) : Prop :=
  ∀ i j call i' j' call', OpenAt m y i j call → OpenAt m y i' j' call' → call.id = call'.id →
    i = i' ∧ j = j'

/-- `y` explains the provider agent's side of `m`, and each connection is in order. -/
structure Inv (serves : Bytes → Bytes → Prop) (cap : Nat) (m : Mesh ι γ χ) (y : Routing.State ι) :
    Prop where
  link : y.link = m.agent.dubbo
  received : y.received = m.service.sent.take m.heard
  wire : y.wire = m.service.sent.drop m.heard
  heard_le : m.heard ≤ m.service.sent.length
  dubbo : y.Inv (Routing.dialogue ι) cap
  sent : DubboSent (y.issued.map Routing.Call.request) m.agent.dubbo.env
  sized : ∀ call ∈ y.issued, call.request.Sized ∧ dubboTotalLen call.request < 2147483648
  answered : y.replies.map Routing.Reply.ticket = m.service.answered
  served : ∀ r ∈ y.replies, ∀ call, y.issued[r.ticket]? = some call →
    serves (dubboBody call.request) r.frame.payload
  pool : Pooled cap m.agent.store fun i => heldOf (m.agent.conns i)
  clients : ∀ i k, m.clients i = some k → (view m y i k).Inv cap
  absent : ∀ i, m.clients i = none →
    m.issued i = [] ∧ fetched y i = [] ∧ m.arrived i = 0 ∧ m.returned i = 0 ∧
      m.agent.conns i = .unborn
  distinct : Distinct m y

/-! ## What the two sides know of each other -/

section
variable {serves : Bytes → Bytes → Prop} {cap : Nat} {m : Mesh ι γ χ} {y : Routing.State ι}
variable {i : ι} {k : Link PaReader (PaClient γ χ)}

omit [DecidableEq ι] in
theorem contextOf_eq_some {r : Routing.Reply} :
    contextOf y r = some i ↔ ∃ call, y.issued[r.ticket]? = some call ∧ call.context = i := by
  simp [contextOf]

theorem ticketAt_lt {r : Routing.Reply} (hr : contextOf y r = some i) :
    ticketAt y i r < (fetched y i).length := by
  obtain ⟨call, hcall, hcontext⟩ := contextOf_eq_some.mp hr
  rw [fetched, List.length_map]
  exact rank_lt_length hcall hcontext

theorem written_of_routed {ds : List Routing.Reply} {ws : List (ι × Bytes)}
    (h : List.Forall₂ (Routing.RoutedTo y.issued) ds ws) (hwf : ∀ r ∈ ds, r.frame.Wf) (i : ι) :
    (ownedBy Prod.fst i ws).map Prod.snd =
      (ownedBy (contextOf y) (some i) ds).map fun r => r.frame.relayed.encode := by
  induction h with
  | nil => rfl
  | @cons r w ds ws hr _ ih =>
    obtain ⟨call, hcall, rfl⟩ := hr
    have hrest := ih fun r' hr' => hwf r' (List.mem_cons_of_mem r hr')
    have hcontext : contextOf y r = some call.context := by rw [contextOf, hcall]; rfl
    have hwrite : dubboCallback r.frame.response call.context =
        (call.context, r.frame.relayed.encode) := by
      rw [← (hwf r List.mem_cons_self).actEncode_eq]
      rfl
    rw [hwrite]
    by_cases hi : call.context = i
    · simp only [ownedBy, List.filter_cons, hcontext, hi, decide_true, if_true, List.map_cons]
      exact congrArg (List.cons _) hrest
    · simp only [ownedBy, List.filter_cons, hcontext, hi, Option.some.injEq, decide_false,
        Bool.false_eq_true, if_false]
      exact hrest

/-- What the provider agent writes to a connection is what it delivers to it. -/
theorem incoming_of_link (hy : y.Inv (Routing.dialogue ι) cap) (hlink : y.link = m.agent.dubbo)
    (i : ι) : m.incoming i = ((sentAt y i).map fun r => r.frame.relayed.encode).flatten := by
  have hrouted := hy.holds.routed
  rw [hlink] at hrouted
  have hwritten := written_of_routed hrouted
    (fun r hr => (hy.replied r ((Exchange.delivered_prefix _ y).subset hr)).1) i
  rw [incoming, hwritten, sentAt, List.map_map]
  rfl

/-- No call is answered twice. -/
theorem sentAt_once (hy : y.Inv (Routing.dialogue ι) cap) (i : ι) :
    ((sentAt y i).map Routing.Reply.ticket).Nodup := by
  have honce : ((deliveredAt y i).map Routing.Reply.ticket).Nodup :=
    hy.once.sublist ((List.filter_sublist.trans (Exchange.delivered_prefix _ y).sublist).map _)
  rw [sentAt, List.map_map]
  apply List.Nodup.map_on _ (List.Nodup.of_map _ honce)
  intro r hr r' hr' heq
  obtain ⟨call, hcall, hcontext⟩ := contextOf_eq_some.mp (mem_ownedBy.mp hr).2
  obtain ⟨call', hcall', hcontext'⟩ := contextOf_eq_some.mp (mem_ownedBy.mp hr').2
  have hticket := rank_inj hcall hcall' hcontext hcontext' heq
  exact List.inj_on_of_nodup_map honce hr hr' hticket

namespace Inv
variable (hm : Inv serves cap m y)
include hm

theorem incoming_eq (i : ι) :
    m.incoming i = ((sentAt y i).map fun r => r.frame.relayed.encode).flatten :=
  incoming_of_link hm.dubbo hm.link i

/-- A request the Dubbo client knows is one of its connection's calls. -/
theorem exists_call (hk : m.clients i = some k) {t : Nat} {call : Routing.Call ι}
    (ht : y.issued[t]? = some call) (hcontext : call.context = i) :
    ∃ c, (m.issued i)[rank Routing.Call.context i y.issued t]? = some c ∧
      call.request = c.request.under k.env.key := by
  have hv := hm.clients i k hk
  have hat : (fetched y i)[rank Routing.Call.context i y.issued t]? = some call.request := by
    rw [fetched, List.getElem?_map, ownedBy_rank ht hcontext]
    rfl
  have hfetched : fetched y i = (view m y i k).whole.map (·.under k.env.key) := hv.fetched
  rw [hfetched, List.getElem?_map] at hat
  obtain ⟨request, hrequest, hunder⟩ := Option.map_eq_some_iff.mp hat
  have hprefix : (view m y i k).whole <+: (m.issued i).map ClientRuns.Call.request :=
    Decoder.complete_isPrefix _ _ _
  obtain ⟨rest, hrest⟩ := hprefix
  have hlt := (List.getElem?_eq_some_iff.mp hrequest).1
  have hissued : ((m.issued i).map ClientRuns.Call.request)[
      rank Routing.Call.context i y.issued t]? = some request := by
    rw [← hrest, List.getElem?_append_left hlt]
    exact hrequest
  rw [List.getElem?_map] at hissued
  obtain ⟨c, hc, rfl⟩ := Option.map_eq_some_iff.mp hissued
  exact ⟨c, hc, hunder.symm⟩

omit hm in
theorem not_delivered {j : Nat} (hj : ∀ r ∈ deliveredAt y i, ticketAt y i r ≠ j) :
    j ∉ ((view m y i k).exchange.delivered
      (ClientRuns.dialogue γ χ k.env.key)).map ClientRuns.Reply.ticket := by
  intro hmem
  obtain ⟨r', hr', rfl⟩ := List.mem_map.mp hmem
  have hsent := (Exchange.delivered_prefix _ (view m y i k).exchange).subset hr'
  obtain ⟨r₁, hr₁, rfl⟩ := List.mem_map.mp hsent
  obtain ⟨r, hr, rfl⟩ := List.mem_map.mp (show r₁ ∈ sentAt y i from hr₁)
  exact hj r hr rfl

/-- What the Dubbo client waits for, a connection waits for. -/
theorem open_of_waiting {t : Nat} {call : Routing.Call ι}
    (hopen : (y.ledger (Routing.dialogue ι)).Open t call) :
    ∃ c, c.id = call.id ∧
      OpenAt m y call.context (rank Routing.Call.context call.context y.issued t) c := by
  obtain ⟨ht, hwaits⟩ := hopen
  have hlt : rank Routing.Call.context call.context y.issued t <
      (ownedBy Routing.Call.context call.context y.issued).length := rank_lt_length ht rfl
  cases hk : m.clients call.context with
  | none =>
    obtain ⟨_, hnone, _⟩ := hm.absent _ hk
    rw [fetched, List.map_eq_nil_iff] at hnone
    rw [hnone] at hlt
    exact absurd hlt (Nat.not_lt_zero _)
  | some k =>
    obtain ⟨c, hc, hrequest⟩ := hm.exists_call hk ht rfl
    refine ⟨c, congrArg DubboRequest.id hrequest.symm, k, hk, hc, not_delivered ?_⟩
    intro r hr hrank
    obtain ⟨hdelivered, hcontext⟩ := mem_ownedBy.mp hr
    obtain ⟨call', hcall', hcontext'⟩ := contextOf_eq_some.mp hcontext
    have hticket := rank_inj hcall' ht hcontext' rfl hrank
    apply hwaits
    rw [← hticket]
    exact List.mem_map_of_mem hdelivered

omit hm in
/-- Nothing has been answered that has not been fetched. -/
theorem open_of_unfetched {j : Nat} {c : ClientRuns.Call γ χ} (hc : (m.issued i)[j]? = some c)
    (hj : (fetched y i).length ≤ j) : (view m y i k).Open j c := by
  refine ⟨hc, not_delivered ?_⟩
  intro r hr heq
  have hlt := ticketAt_lt (mem_ownedBy.mp hr).2
  omega

end Inv
end

end Mesh
end PyAgent
