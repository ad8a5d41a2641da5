import PyAgent.PaServer
import PyAgent.DubboClient
import PyAgent.PaClient
import PyAgent.ConsumerAgent
import PyAgent.HttpResponse
import PyAgent.HttpReceive
import PyAgent.Streaming.Handles
import Mathlib.Logic.Relation

/-!
# Closing a connection

Both agents close a connection in its own read callback and write to it in the
callback of a response, which takes the channel from the context that has waited
in a client's map. Closing takes nothing out of these maps.
-/

namespace PyAgent.Closing
set_option autoImplicit false

open Streaming

/-- The connection of a channel: not accepted yet, open, or closed. Once it is closed libuv reads
from it no more, and its context stays where it is. -/
inductive Conn (σ : Type) where
  | unborn
  | live (held : Option Nat) (ctx : σ)
  | closed

def Conn.Live {σ : Type} : Conn σ → Prop
  | .live _ _ => True
  | _ => False

def liveOf {σ χ : Type} (conns : χ → Conn σ) : Set χ := {c | (conns c).Live}

section
variable {σ χ : Type} [DecidableEq χ] (conns : χ → Conn σ) (c : χ)

theorem liveOf_open (held : Option Nat) (ctx : σ) :
    liveOf (Function.update conns c (.live held ctx)) = insert c (liveOf conns) := by
  ext d
  by_cases hd : d = c
  · simp [liveOf, hd, Conn.Live]
  · simp [liveOf, hd]

theorem liveOf_close : liveOf (Function.update conns c .closed) = liveOf conns \ {c} := by
  ext d
  by_cases hd : d = c
  · simp [liveOf, hd, Conn.Live]
  · simp [liveOf, hd]

end

/-- What an agent keeps of its connections: the channels it has closed are not read from again. -/
structure Inv {σ χ : Type} (conns : χ → Conn σ) (pending : Set χ) (calls : List (HandleCall χ)) :
    Prop where
  safe : Handles.Safe ⟨liveOf conns, pending, calls⟩
  closed : ∀ c, .close c ∈ calls → conns c = .closed

section
variable {σ χ : Type} [DecidableEq χ] {conns : χ → Conn σ} {pending : Set χ}
variable {calls : List (HandleCall χ)} (hi : Inv conns pending calls)
include hi

theorem Inv.accept {c : χ} (hc : conns c = .unborn) (ctx : σ) :
    Inv (Function.update conns c (.live none ctx)) pending calls := by
  have hopen : .close c ∉ calls := by
    intro hclose
    have hclosed := hi.closed c hclose
    rw [hc] at hclosed
    cases hclosed
  refine ⟨?_, ?_⟩
  · rw [liveOf_open]
    exact hi.safe.accept hopen
  · intro d hd
    have hne : d ≠ c := fun heq => hopen (heq ▸ hd)
    rw [Function.update_of_ne hne]
    exact hi.closed d hd

theorem Inv.close {c : χ} (hc : c ∉ pending) :
    Inv (Function.update conns c .closed) pending (calls ++ [.close c]) := by
  refine ⟨?_, ?_⟩
  · rw [liveOf_close]
    exact hi.safe.close hc
  · intro d hd
    by_cases hdc : d = c
    · rw [hdc, Function.update_self]
    · rw [Function.update_of_ne hdc]
      rcases List.mem_append.mp hd with hd | hd
      · exact hi.closed d hd
      · exact absurd (HandleCall.close.inj (List.mem_singleton.mp hd)) hdc

/-- A channel that has not been accepted has no work pending. -/
theorem Inv.refuse {c : χ} (hc : conns c = .unborn) :
    Inv (Function.update conns c .closed) pending (calls ++ [.close c]) := by
  apply hi.close
  intro hpending
  have hlive : (conns c).Live := hi.safe.pending_live hpending
  rw [hc] at hlive
  exact hlive

/-- A read callback leaves its own connection open and may file its channel. -/
theorem Inv.read {c : χ} {held held' : Option Nat} {ctx ctx' : σ} (hc : conns c = .live held ctx)
    {pending' : Set χ} (hsub : pending' ⊆ insert c pending) :
    Inv (Function.update conns c (.live held' ctx')) pending' calls := by
  have hlive : c ∈ liveOf conns := by
    simp [liveOf, hc, Conn.Live]
  have hsame : liveOf (Function.update conns c (.live held' ctx')) = liveOf conns := by
    rw [liveOf_open, Set.insert_eq_of_mem hlive]
  refine ⟨?_, ?_⟩
  · rw [hsame]
    apply hi.safe.register
    exact hsub.trans (Set.insert_subset hlive hi.safe.pending_live)
  · intro d hd
    have hne : d ≠ c := by
      rintro rfl
      have hclosed := hi.closed d hd
      rw [hc] at hclosed
      cases hclosed
    rw [Function.update_of_ne hne]
    exact hi.closed d hd

omit [DecidableEq χ] in
theorem Inv.mono {pending' : Set χ} (hsub : pending' ⊆ pending) : Inv conns pending' calls :=
  ⟨hi.safe.register (hsub.trans hi.safe.pending_live), hi.closed⟩

omit [DecidableEq χ] in
theorem Inv.respond {pending' : Set χ} (hsub : pending' ⊆ pending) {cs : List χ}
    (hcs : ∀ c ∈ cs, c ∈ pending) : Inv conns pending' (calls ++ cs.map .write) := by
  refine ⟨hi.safe.respond hsub hcs, ?_⟩
  intro d hd
  rcases List.mem_append.mp hd with hd | hd
  · exact hi.closed d hd
  · obtain ⟨c, _, heq⟩ := List.mem_map.mp hd
    cases heq

end

/-! ## The provider agent -/

/-- What the read callback of an act connection reaches. -/
structure PaEnv (χ : Type) where
  dubboClient : DubboClient χ
  calls : List (HandleCall χ)

namespace PaEnv
variable {χ : Type}

def dubboFetch (c : χ) (e : PaEnv χ) (request : DubboRequest) : Option (PaEnv χ) :=
  some { e with dubboClient := e.dubboClient.dubboFetch request .dubboCallback c }

def uvClose (c : χ) (e : PaEnv χ) : PaEnv χ := { e with calls := e.calls ++ [.close c] }

end PaEnv

/-- The server with its connections, its Dubbo client's connection, and the calls of `uv_write` and
`uv_close` on channels. -/
structure Provider (χ : Type) where
  store : BufStore
  conns : χ → Conn StreamContext
  dubbo : Link DubboReader (DubboClient χ)
  calls : List (HandleCall χ)

namespace Provider
variable {χ : Type} [DecidableEq χ]

inductive Event (χ : Type) where
  | accept (c : χ) (block : StreamContext) (ret : Int)
  | read (c : χ) (tie : Nat) (chunk : Bytes)
  | fail (c : χ) (tie : Nat) (nread : Int)
  | dubboConnect (status : Int)
  | dubboRead (tie : Nat) (chunk : Bytes)

def start (χ : Type) : Provider χ :=
  ⟨⟨[], []⟩, fun _ => .unborn, dubboLink ⟨[], []⟩ ⟨0, 0, []⟩ DubboClient.create, []⟩

def link (x : Provider χ) (held : Option Nat) (ctx : StreamContext) :
    Link StreamContext (PaEnv χ) :=
  ⟨x.store, held, ctx, ⟨x.dubbo.env, x.calls⟩⟩

def put (x : Provider χ) (c : χ) (k : Link StreamContext (PaEnv χ)) (conn : Conn StreamContext) :
    Provider χ where
  store := k.store
  conns := Function.update x.conns c conn
  dubbo := { x.dubbo with env := k.env.dubboClient }
  calls := k.env.calls

def readCbs (c : χ) : ReadCbs StreamContext (PaEnv χ) :=
  paReadCbs (PaEnv.dubboFetch c) (PaEnv.uvClose c)

/-- `none` where the event cannot happen or where the code does not come back from it. -/
def step (S : Nat) (x : Provider χ) : Event χ → Option (Provider χ)
  | .accept c block ret =>
    match x.conns c with
    | .unborn => some (if ret = 0
        then { x with conns := Function.update x.conns c (.live none (createPaContext block)) }
        else { x with
          conns := Function.update x.conns c .closed
          calls := x.calls ++ [.close c] })
    | _ => none
  | .read c tie chunk =>
    match x.conns c with
    | .live held ctx => ((x.link held ctx).complete (readCbs c) S tie chunk).map fun k =>
        x.put c k (.live k.held k.ctx)
    | _ => none
  | .fail c tie nread =>
    match x.conns c with
    | .live held ctx =>
      if nread < 0 then ((x.link held ctx).fail (readCbs c) S tie nread).map fun k =>
        x.put c k .closed
      else none
    | _ => none
  | .dubboConnect status =>
    some { x with dubbo := { x.dubbo with env := x.dubbo.env.onConnect status } }
  | .dubboRead tie chunk =>
    if x.dubbo.env.connected then
      (x.dubbo.complete (dubboReadCbs χ) S tie chunk).map fun k => { x with
        dubbo := k
        calls := x.calls ++ (k.env.channels.drop x.dubbo.env.channels.length).map fun w =>
          .write w.1 }
    else none

/-- A request of this connection waits for its response from the provider. -/
def Waiting (client : DubboClient χ) : Set χ := {c | ∃ id, client.contexts id = some c}

/-- A connection is closed only when none of its requests waits. -/
def ClosesIdle (x : Provider χ) : Event χ → Prop
  | .fail c _ _ => c ∉ Waiting x.dubbo.env
  | _ => True

def Reached (S : Nat) (ok : Provider χ → Event χ → Prop) : Provider χ → Prop :=
  Relation.ReflTransGen (fun x x' => ∃ e, ok x e ∧ step S x e = some x') (start χ)

omit [DecidableEq χ] in
@[simp] theorem waiting_onConnect (client : DubboClient χ) (status : Int) :
    Waiting (client.onConnect status) = Waiting client := by
  unfold DubboClient.onConnect Waiting
  split
  · rfl
  · rw [DubboClient.handleQueue_contexts]

omit [DecidableEq χ] in
theorem waiting_dubboFetch (client : DubboClient χ) (request : DubboRequest)
    (cb : DubboCallback) (c : χ) :
    Waiting (client.dubboFetch request cb c) ⊆ insert c (Waiting client) := by
  intro d hd
  obtain ⟨id, hid⟩ := hd
  rw [DubboClient.dubboFetch, DubboClient.handleQueue_contexts] at hid
  by_cases hsame : id = request.id
  · simp only [hsame, Function.update_self, Option.some.injEq] at hid
    exact Or.inl hid.symm
  · simp only [Function.update_of_ne hsame] at hid
    exact Or.inr ⟨id, hid⟩

/-- The responses read since: each has been written to a channel that had waited. -/
def Answered (client client' : DubboClient χ) : Prop :=
  Waiting client' ⊆ Waiting client ∧ ∃ ws : List (χ × Bytes),
    client'.channels = client.channels ++ ws ∧ ∀ w ∈ ws, w.1 ∈ Waiting client

omit [DecidableEq χ] in
theorem Answered.answer {client client' client'' : DubboClient χ} (h : Answered client client')
    {resp : DubboResponse} (hanswer : client'.answer resp = some client'') :
    Answered client client'' := by
  obtain ⟨hsub, ws, hws, hwaited⟩ := h
  unfold DubboClient.answer at hanswer
  split at hanswer
  · rename_i c _ hc
    obtain rfl := Option.some.inj hanswer
    refine ⟨?_, ws ++ [dubboCallback resp c], by simp [hws], ?_⟩
    · intro d hd
      obtain ⟨id, hid⟩ := hd
      by_cases hsame : id = resp.id
      · simp [hsame] at hid
      · simp only [Function.update_of_ne hsame] at hid
        exact hsub ⟨id, hid⟩
    · intro w hw
      rcases List.mem_append.mp hw with hw | hw
      · exact hwaited w hw
      · rw [List.mem_singleton.mp hw]
        exact hsub ⟨resp.id, hc⟩
  · cases hanswer

section
variable {S : Nat} {x x' : Provider χ}

omit [DecidableEq χ] in
theorem read_keeps {c : χ} {held : Option Nat} {ctx : StreamContext} {tie : Nat} {chunk : Bytes}
    {k : Link StreamContext (PaEnv χ)}
    (h : (x.link held ctx).complete (readCbs c) S tie chunk = some k) :
    k.env.calls = x.calls ∧ Waiting k.env.dubboClient ⊆ insert c (Waiting x.dubbo.env) := by
  refine Link.complete_keeps paReadCbs_implements
    (P := fun e => e.calls = x.calls ∧ Waiting e.dubboClient ⊆ insert c (Waiting x.dubbo.env))
    ?_ ⟨rfl, Set.subset_insert _ _⟩ h
  intro e request e' he hfetch
  obtain ⟨hcalls, hsub⟩ := he
  obtain rfl := Option.some.inj hfetch
  refine ⟨hcalls, (waiting_dubboFetch _ _ _ _).trans ?_⟩
  exact Set.insert_subset (Set.mem_insert _ _) hsub

omit [DecidableEq χ] in
theorem fail_eq {c : χ} {held : Option Nat} {ctx : StreamContext} {tie : Nat} {nread : Int}
    (hneg : nread < 0) {k : Link StreamContext (PaEnv χ)}
    (h : (x.link held ctx).fail (readCbs c) S tie nread = some k) :
    k.env = ⟨x.dubbo.env, x.calls ++ [.close c]⟩ := by
  obtain ⟨l, l', hread, henv, henv'⟩ := Link.exists_failed _ S h
  simp only [readCbs, paReadCbs, onRead, if_pos hneg, Option.some.injEq, Exit.done.injEq] at hread
  rw [henv', ← hread, henv]
  rfl

omit [DecidableEq χ] in
theorem dubboRead_answered {tie : Nat} {chunk : Bytes} {k : Link DubboReader (DubboClient χ)}
    (h : x.dubbo.complete (dubboReadCbs χ) S tie chunk = some k) :
    Answered x.dubbo.env k.env := by
  refine Link.complete_keeps (dubboReadCbs_implements χ) (P := Answered x.dubbo.env) ?_ ?_ h
  · intro e resp e' he hanswer
    exact he.answer hanswer
  · exact ⟨Set.Subset.refl _, [], by simp, by simp⟩

/-- The invariant of the provider agent. -/
def Ok (x : Provider χ) : Prop := Inv x.conns (Waiting x.dubbo.env) x.calls

theorem Ok.step (hx : x.Ok) {e : Event χ} (he : ClosesIdle x e) (hstep : step S x e = some x') :
    x'.Ok := by
  cases e with
  | accept c block ret =>
    cases hc : x.conns c with
    | unborn =>
      simp only [Provider.step, hc, Option.some.injEq] at hstep
      subst hstep
      split
      · exact hx.accept hc _
      · exact hx.refuse hc
    | live held ctx => simp [Provider.step, hc] at hstep
    | closed => simp [Provider.step, hc] at hstep
  | read c tie chunk =>
    cases hc : x.conns c with
    | live held ctx =>
      simp only [Provider.step, hc] at hstep
      obtain ⟨k, hk, rfl⟩ := Option.map_eq_some_iff.mp hstep
      obtain ⟨hcalls, hsub⟩ := read_keeps hk
      unfold Ok put
      rw [hcalls]
      exact hx.read hc hsub
    | unborn => simp [Provider.step, hc] at hstep
    | closed => simp [Provider.step, hc] at hstep
  | fail c tie nread =>
    cases hc : x.conns c with
    | live held ctx =>
      simp only [Provider.step, hc] at hstep
      split at hstep
      · rename_i hneg
        obtain ⟨k, hk, rfl⟩ := Option.map_eq_some_iff.mp hstep
        unfold Ok put
        rw [fail_eq hneg hk]
        exact hx.close he
      · cases hstep
    | unborn => simp [Provider.step, hc] at hstep
    | closed => simp [Provider.step, hc] at hstep
  | dubboConnect status =>
    obtain rfl := Option.some.inj hstep
    unfold Ok
    rw [waiting_onConnect]
    exact hx
  | dubboRead tie chunk =>
    simp only [Provider.step] at hstep
    split at hstep
    · obtain ⟨k, hk, rfl⟩ := Option.map_eq_some_iff.mp hstep
      obtain ⟨hsub, ws, hws, hwaited⟩ := dubboRead_answered hk
      have hcs : ∀ c ∈ ws.map Prod.fst, c ∈ Waiting x.dubbo.env := by
        intro c hc
        obtain ⟨w, hw, rfl⟩ := List.mem_map.mp hc
        exact hwaited w hw
      have hmap : (ws.map Prod.fst).map HandleCall.write = ws.map fun w => .write w.1 :=
        List.map_map
      unfold Ok
      simp only [hws, List.drop_left, ← hmap]
      exact hx.respond hsub hcs
    · cases hstep

theorem ok_of_reached (hx : Reached S ClosesIdle x) : x.Ok := by
  induction hx with
  | refl =>
    refine ⟨⟨List.Pairwise.nil, ?_, ?_⟩, ?_⟩
    · intro c hc
      obtain ⟨id, hid⟩ := hc
      cases hid
    · intro c hc
      cases hc
    · intro c hc
      cases hc
  | tail _ hstep ih =>
    obtain ⟨e, he, hstep⟩ := hstep
    exact ih.step he hstep

end

end Provider

/-! ## The consumer agent -/

/-- The functions `pa_client_fetch` is ever given. -/
inductive PaCallback where
  | actDoneCallback
  deriving DecidableEq

/-- What the read callback of an HTTP connection reaches. -/
structure CaEnv (χ : Type) where
  server : CaServer
  clients : List (Link PaReader (PaClient PaCallback χ))
  calls : List (HandleCall χ)

namespace CaEnv
variable {χ : Type}

def createPaClient (reuseKey : ActReuseKey) : Link PaReader (PaClient PaCallback χ) :=
  paLink ⟨[], []⟩ ⟨0, 0, []⟩ (PaClient.create reuseKey)

/-- `_h_on_body` with the connection it opens and the one that fetches; `choose n` is what the load
balancer and `rand` give the `n`-th call. -/
def hOnBody (choose : Nat → Fin 10 × Int) (c : χ) (e : CaEnv χ) (data : Bytes) :
    Option (CaEnv χ) :=
  let (eidx, id) := choose e.server.fetched.length
  (e.server.hOnBody eidx id data).bind fun server =>
    server.fetched.getLast?.map fun fetch =>
      let opened := (server.created.drop e.server.created.length).map fun made =>
        createPaClient made.2
      { e with
        server := server
        clients := (e.clients ++ opened).modify fetch.1 fun k =>
          { k with env := k.env.fetch fetch.2 .actDoneCallback c } }

def uvClose (c : χ) (e : CaEnv χ) : CaEnv χ := { e with calls := e.calls ++ [.close c] }

end CaEnv

structure Consumer (ρ χ : Type) where
  store : BufStore
  conns : χ → Conn (HContext ρ)
  env : CaEnv χ

namespace Consumer
variable {ρ χ : Type} [DecidableEq χ]

inductive Event (ρ χ : Type) where
  | accept (c : χ) (parser : HttpParser ρ) (ret : Int)
  | read (c : χ) (tie : Nat) (chunk : Bytes)
  | fail (c : χ) (tie : Nat) (nread : Int)
  | paConn (p : Nat) (status : Int)
  | paKeyWritten (p : Nat) (status : Int)
  | paRead (p tie : Nat) (chunk : Bytes)

def start (ρ χ : Type) (func : Bytes → Nat → Nat) : Consumer ρ χ :=
  ⟨⟨[], []⟩, fun _ => .unborn, ⟨CaServer.start func, [], []⟩⟩

/-- An environment is missing when a callback has not come back. -/
def link (x : Consumer ρ χ) (held : Option Nat) (ctx : HContext ρ) :
    Link (HContext ρ) (Option (CaEnv χ)) :=
  ⟨x.store, held, ctx, some x.env⟩

def put (x : Consumer ρ χ) (c : χ) (k : Link (HContext ρ) (Option (CaEnv χ)))
    (conn : Conn (HContext ρ)) : Option (Consumer ρ χ) :=
  k.env.map fun env => ⟨k.store, Function.update x.conns c conn, env⟩

section
variable (M : HttpMachine ρ) (choose : Nat → Fin 10 × Int)

def readCbs (c : χ) : ReadCbs (HContext ρ) (Option (CaEnv χ)) :=
  caReadCbs M (fun env data => env.bind fun e => e.hOnBody choose c data)
    (Option.map (CaEnv.uvClose c))

def setClient (x : Consumer ρ χ) (p : Nat) (f : PaClient PaCallback χ → PaClient PaCallback χ) :
    Consumer ρ χ :=
  { x with env := { x.env with clients := x.env.clients.modify p fun k =>
    { k with env := f k.env } } }

/-- `none` where the event cannot happen or where the code does not come back from it. -/
def step (S : Nat) (x : Consumer ρ χ) : Event ρ χ → Option (Consumer ρ χ)
  | .accept c parser ret =>
    match x.conns c with
    | .unborn => some (if ret = 0
        then { x with conns := Function.update x.conns c (.live none ⟨parser, true⟩) }
        else { x with
          conns := Function.update x.conns c .closed
          env := x.env.uvClose c })
    | _ => none
  | .read c tie chunk =>
    match x.conns c with
    | .live held ctx => ((x.link held ctx).complete (readCbs M choose c) S tie chunk).bind fun k =>
        x.put c k (.live k.held k.ctx)
    | _ => none
  | .fail c tie nread =>
    match x.conns c with
    | .live held ctx =>
      if nread < 0 then ((x.link held ctx).fail (readCbs M choose c) S tie nread).bind fun k =>
        x.put c k .closed
      else none
    | _ => none
  | .paConn p status => some (x.setClient p fun client => client.onConn status)
  | .paKeyWritten p status => some (x.setClient p fun client => client.keyWriteCb status)
  | .paRead p tie chunk =>
    match x.env.clients[p]? with
    | none => none
    | some k =>
      (k.complete (paClientReadCbs PaCallback χ) S tie chunk).bind fun k' =>
        -- each call of `act_done_callback` is one `uv_write` to the stream of its context
        let made := k'.env.calls.drop k.env.calls.length
        if made.all fun call => (actDoneCallback call.2.1).isSome then
          some { x with env := { x.env with
            clients := x.env.clients.set p k'
            calls := x.env.calls ++ made.map fun call => .write call.2.2 } }
        else none

end

/-- A request of this stream waits for its response from a provider agent. -/
def Waiting (clients : List (Link PaReader (PaClient PaCallback χ))) : Set χ :=
  {c | ∃ k ∈ clients, ∃ id, k.env.contexts id = some c}

/-- A stream is closed only when none of its requests waits. -/
def ClosesIdle (x : Consumer ρ χ) : Event ρ χ → Prop
  | .fail c _ _ => c ∉ Waiting x.env.clients
  | _ => True

def Reached (M : HttpMachine ρ) (choose : Nat → Fin 10 × Int) (func : Bytes → Nat → Nat) (S : Nat)
    (ok : Consumer ρ χ → Event ρ χ → Prop) : Consumer ρ χ → Prop :=
  Relation.ReflTransGen (fun x x' => ∃ e, ok x e ∧ step M choose S x e = some x')
    (start ρ χ func)

section
variable {clients : List (Link PaReader (PaClient PaCallback χ))} {pending : Set χ}

omit [DecidableEq χ] in
theorem waiting_modify (h : Waiting clients ⊆ pending) (p : Nat)
    {f : PaClient PaCallback χ → PaClient PaCallback χ}
    (hf : ∀ k ∈ clients, ∀ id c, (f k.env).contexts id = some c →
      k.env.contexts id = some c ∨ c ∈ pending) :
    Waiting (clients.modify p fun k => { k with env := f k.env }) ⊆ pending := by
  intro c hc
  obtain ⟨k, hk, id, hid⟩ := hc
  obtain ⟨i, hi⟩ := List.mem_iff_getElem?.mp hk
  rw [List.getElem?_modify] at hi
  obtain ⟨k₀, hk₀, rfl⟩ := Option.map_eq_some_iff.mp hi
  have hmem := List.mem_of_getElem? hk₀
  by_cases hip : p = i
  · simp only [hip, if_true] at hid
    rcases hf k₀ hmem id c hid with hold | hnew
    · exact h ⟨k₀, hmem, id, hold⟩
    · exact hnew
  · simp only [hip, if_false] at hid
    exact h ⟨k₀, hmem, id, hid⟩

/-- The responses read since: each has been handed back with a stream that had waited. -/
def Answered (client client' : PaClient PaCallback χ) : Prop :=
  (∀ id c, client'.contexts id = some c → ∃ id', client.contexts id' = some c) ∧
    ∃ made, client'.calls = client.calls ++ made ∧
      ∀ call ∈ made, ∃ id, client.contexts id = some call.2.2

omit [DecidableEq χ] in
theorem Answered.answer {client client' client'' : PaClient PaCallback χ}
    (h : Answered client client') {resp : ActResponse}
    (hanswer : client'.answer resp = some client'') : Answered client client'' := by
  obtain ⟨hsub, made, hmade, hwaited⟩ := h
  unfold PaClient.answer at hanswer
  split at hanswer
  · rename_i cb c _ hc
    obtain rfl := Option.some.inj hanswer
    refine ⟨?_, made ++ [(cb, resp, c)], by simp [hmade], ?_⟩
    · intro id d hid
      by_cases hsame : id = resp.id
      · simp [hsame] at hid
      · simp only [Function.update_of_ne hsame] at hid
        exact hsub id d hid
    · intro call hcall
      rcases List.mem_append.mp hcall with hcall | hcall
      · exact hwaited call hcall
      · rw [List.mem_singleton.mp hcall]
        exact hsub resp.id c hc
  · cases hanswer

omit [DecidableEq χ] in
theorem paRead_answered {k k' : Link PaReader (PaClient PaCallback χ)} {S tie : Nat}
    {chunk : Bytes} (h : k.complete (paClientReadCbs PaCallback χ) S tie chunk = some k') :
    Answered k.env k'.env := by
  refine Link.complete_keeps (paClientReadCbs_implements PaCallback χ) (P := Answered k.env) ?_ ?_ h
  · intro e resp e' he hanswer
    exact he.answer hanswer
  · exact ⟨fun id c hid => ⟨id, hid⟩, [], by simp, by simp⟩

omit [DecidableEq χ] in
theorem waiting_hOnBody {choose : Nat → Fin 10 × Int} {c : χ} {e e' : CaEnv χ} {data : Bytes}
    (h : e.hOnBody choose c data = some e') :
    e'.calls = e.calls ∧ Waiting e'.clients ⊆ insert c (Waiting e.clients) := by
  obtain ⟨server, _, h⟩ := Option.bind_eq_some_iff.mp h
  obtain ⟨fetch, _, rfl⟩ := Option.map_eq_some_iff.mp h
  refine ⟨rfl, ?_⟩
  refine waiting_modify (f := fun client => client.fetch fetch.2 .actDoneCallback c) ?_ fetch.1 ?_
  · intro d hd
    obtain ⟨k, hk, id, hid⟩ := hd
    rcases List.mem_append.mp hk with hk | hk
    · exact Or.inr ⟨k, hk, id, hid⟩
    · obtain ⟨made, _, rfl⟩ := List.mem_map.mp hk
      cases hid
  · intro k _ id d hid
    rw [PaClient.fetch, PaClient.handleQueue_contexts] at hid
    by_cases hsame : id = fetch.2.id
    · simp only [hsame, Function.update_self, Option.some.injEq] at hid
      exact Or.inr (Or.inl hid.symm)
    · simp only [Function.update_of_ne hsame] at hid
      exact Or.inl hid

end

section
variable {M : HttpMachine ρ} {choose : Nat → Fin 10 × Int} {func : Bytes → Nat → Nat} {S : Nat}
variable {x x' : Consumer ρ χ}

omit [DecidableEq χ] in
theorem read_keeps {c : χ} {held : Option Nat} {ctx : HContext ρ} {tie : Nat} {chunk : Bytes}
    {k : Link (HContext ρ) (Option (CaEnv χ))}
    (h : (x.link held ctx).complete (readCbs M choose c) S tie chunk = some k) {env : CaEnv χ}
    (henv : k.env = some env) :
    env.calls = x.env.calls ∧ Waiting env.clients ⊆ insert c (Waiting x.env.clients) := by
  let P : Option (CaEnv χ) → Prop := fun o => ∀ e, o = some e →
    e.calls = x.env.calls ∧ Waiting e.clients ⊆ insert c (Waiting x.env.clients)
  have hstart : P (some x.env) := by
    intro e he
    obtain rfl := Option.some.inj he
    exact ⟨rfl, Set.subset_insert _ _⟩
  have hbody : ∀ o data, P o → P (o.bind fun e => e.hOnBody choose c data) := by
    intro o data ho e' he'
    obtain ⟨e, rfl, hcall⟩ := Option.bind_eq_some_iff.mp he'
    obtain ⟨hcalls, hsub⟩ := waiting_hOnBody hcall
    obtain ⟨hcalls₀, hsub₀⟩ := ho e rfl
    refine ⟨hcalls.trans hcalls₀, hsub.trans ?_⟩
    exact Set.insert_subset (Set.mem_insert _ _) hsub₀
  obtain ⟨l, l', hread, _, hfrom, _, hto⟩ := Link.exists_read _ S h
  have hl : P l.env := by
    rw [hfrom]
    exact hstart
  have hneg : ¬ (chunk.length : Int) < 0 := by omega
  simp only [readCbs, caReadCbs, caOnRead, if_neg hneg] at hread
  split at hread
  · cases hread
  · rename_i r _
    have hl' := congrArg Rx.env (Exit.done.inj (Option.some.inj hread))
    have hfold : P (r.bodies.foldl (fun env data => env.bind fun e => e.hOnBody choose c data)
        l.env) := by
      refine List.foldlRecOn r.bodies _ hl ?_
      intro o ho data _
      exact hbody o data ho
    apply hfold
    rw [← henv, hto, ← hl']
    rfl

omit [DecidableEq χ] in
theorem fail_eq {c : χ} {held : Option Nat} {ctx : HContext ρ} {tie : Nat} {nread : Int}
    (hneg : nread < 0) {k : Link (HContext ρ) (Option (CaEnv χ))}
    (h : (x.link held ctx).fail (readCbs M choose c) S tie nread = some k) :
    k.env = some (x.env.uvClose c) := by
  obtain ⟨l, l', hread, henv, henv'⟩ := Link.exists_failed _ S h
  simp only [readCbs, caReadCbs, caOnRead, if_pos hneg, Option.some.injEq, Exit.done.injEq] at hread
  rw [henv', ← hread, henv]
  rfl

/-- The invariant of the consumer agent. -/
def Ok (x : Consumer ρ χ) : Prop := Inv x.conns (Waiting x.env.clients) x.env.calls

omit [DecidableEq χ] in
theorem Ok.setClient (hx : x.Ok) (p : Nat) {f : PaClient PaCallback χ → PaClient PaCallback χ}
    (hf : ∀ client, (f client).contexts = client.contexts) : (x.setClient p f).Ok := by
  apply hx.mono
  apply waiting_modify (Set.Subset.refl _)
  intro k _ id c hid
  rw [hf] at hid
  exact Or.inl hid

theorem Ok.paRead (hx : x.Ok) {p tie : Nat} {chunk : Bytes}
    (hstep : Consumer.step M choose S x (.paRead p tie chunk) = some x') : x'.Ok := by
  cases hp : x.env.clients[p]? with
  | none => simp [Consumer.step, hp] at hstep
  | some k =>
    simp only [Consumer.step, hp] at hstep
    obtain ⟨k', hk', hstep⟩ := Option.bind_eq_some_iff.mp hstep
    split at hstep
    · obtain rfl := Option.some.inj hstep
      obtain ⟨hsub, made, hmade, hwaited⟩ := paRead_answered hk'
      have hmem := List.mem_of_getElem? hp
      have hcs : ∀ c ∈ made.map fun call => call.2.2, c ∈ Waiting x.env.clients := by
        intro c hc
        obtain ⟨call, hcall, rfl⟩ := List.mem_map.mp hc
        obtain ⟨id, hid⟩ := hwaited call hcall
        exact ⟨k, hmem, id, hid⟩
      have hmap : (made.map fun call => call.2.2).map HandleCall.write =
          made.map fun call => .write call.2.2 := List.map_map
      have hpending : Waiting (x.env.clients.set p k') ⊆ Waiting x.env.clients := by
        intro c hc
        obtain ⟨j, hj, id, hid⟩ := hc
        rcases List.mem_or_eq_of_mem_set hj with hj | rfl
        · exact ⟨j, hj, id, hid⟩
        · obtain ⟨id', hid'⟩ := hsub id c hid
          exact ⟨k, hmem, id', hid'⟩
      unfold Ok
      simp only [hmade, List.drop_left, ← hmap]
      exact hx.respond hpending hcs
    · cases hstep

theorem Ok.step (hx : x.Ok) {e : Event ρ χ} (he : ClosesIdle x e)
    (hstep : step M choose S x e = some x') : x'.Ok := by
  cases e with
  | accept c parser ret =>
    cases hc : x.conns c with
    | unborn =>
      simp only [Consumer.step, hc, Option.some.injEq] at hstep
      subst hstep
      split
      · exact hx.accept hc _
      · exact hx.refuse hc
    | live held ctx => simp [Consumer.step, hc] at hstep
    | closed => simp [Consumer.step, hc] at hstep
  | read c tie chunk =>
    cases hc : x.conns c with
    | live held ctx =>
      simp only [Consumer.step, hc] at hstep
      obtain ⟨k, hk, hput⟩ := Option.bind_eq_some_iff.mp hstep
      obtain ⟨env, henv, rfl⟩ := Option.map_eq_some_iff.mp hput
      obtain ⟨hcalls, hsub⟩ := read_keeps hk henv
      unfold Ok
      rw [hcalls]
      exact hx.read hc hsub
    | unborn => simp [Consumer.step, hc] at hstep
    | closed => simp [Consumer.step, hc] at hstep
  | fail c tie nread =>
    cases hc : x.conns c with
    | live held ctx =>
      simp only [Consumer.step, hc] at hstep
      split at hstep
      · rename_i hneg
        obtain ⟨k, hk, hput⟩ := Option.bind_eq_some_iff.mp hstep
        obtain ⟨env, henv, rfl⟩ := Option.map_eq_some_iff.mp hput
        rw [fail_eq hneg hk, Option.some.injEq] at henv
        subst henv
        exact hx.close he
      · cases hstep
    | unborn => simp [Consumer.step, hc] at hstep
    | closed => simp [Consumer.step, hc] at hstep
  | paConn p status =>
    obtain rfl := Option.some.inj hstep
    apply hx.setClient
    intro client
    unfold PaClient.onConn
    split
    · rfl
    · rw [PaClient.handleQueue_contexts]
  | paKeyWritten p status =>
    obtain rfl := Option.some.inj hstep
    apply hx.setClient
    intro client
    unfold PaClient.keyWriteCb
    split
    · rfl
    · rw [PaClient.handleQueue_contexts]
  | paRead p tie chunk => exact hx.paRead hstep

theorem ok_of_reached (hx : Reached M choose func S ClosesIdle x) : x.Ok := by
  induction hx with
  | refl =>
    refine ⟨⟨List.Pairwise.nil, ?_, ?_⟩, ?_⟩
    · intro c hc
      obtain ⟨k, hk, _⟩ := hc
      cases hk
    · intro c hc
      cases hc
    · intro c hc
      cases hc
  | tail _ hstep ih =>
    obtain ⟨e, he, hstep⟩ := hstep
    exact ih.step he hstep

end

end Consumer

/-! ## Runs that close connections -/

/-- In every run of either agent in which a connection is closed only when none of its requests
waits, no channel is written to after it has been closed. -/
theorem no_write_after_close {χ χ' ρ : Type} [DecidableEq χ] [DecidableEq χ'] {S S' : Nat}
    {x : Provider χ} (hx : Provider.Reached S Provider.ClosesIdle x) {M : HttpMachine ρ}
    {choose : Nat → Fin 10 × Int} {func : Bytes → Nat → Nat} {y : Consumer ρ χ'}
    (hy : Consumer.Reached M choose func S' Consumer.ClosesIdle y) :
    Orderly x.calls ∧ Orderly y.env.calls :=
  ⟨(Provider.ok_of_reached hx).safe.orderly, (Consumer.ok_of_reached hy).safe.orderly⟩

/-- A run given by its events, all of which are allowed wherever they happen. -/
theorem reached_of_foldlM {α ε : Type} {step : α → ε → Option α} {ok : α → ε → Prop} {es : List ε}
    (hok : ∀ e ∈ es, ∀ a, ok a e) {a a' : α} (h : es.foldlM step a = some a') :
    Relation.ReflTransGen (fun a a' => ∃ e, ok a e ∧ step a e = some a') a a' := by
  induction es generalizing a with
  | nil =>
    obtain rfl := Option.some.inj h
    exact .refl
  | cons e es ih =>
    obtain ⟨b, hb, hrest⟩ := Option.bind_eq_some_iff.mp h
    obtain ⟨he, hok⟩ := List.forall_mem_cons.mp hok
    exact .head ⟨e, he a, hb⟩ (ih hok hrest)

def emptyContext : StreamContext :=
  ⟨.magic, false, .id, [], 0, [], 0, [], 0, { id := 0, pLen := 0, parameter := [] }⟩

/-- A connection with an empty key and one request, and the response to it. -/
def actBytes (id : Int) : Bytes :=
  paEncodeActKey ⟨[], 0, [], 0, [], 0⟩ ++
    paActRequestEncode { id := id, pLen := 0, parameter := [] }

def dubboBytes (id : Int) : Bytes := DubboFrame.encode ⟨(0, 0), id, []⟩

/-- A parser that takes everything it is given as the body of a request. -/
def bodyMachine : HttpMachine Unit where
  cleared := ()
  run parser data :=
    { parser := parser, parsed := data.length, bodies := [data], messageComplete := true }

def bodyBytes : Bytes := ascii "interface=a&method=b&parameterTypesString=c&parameter=d"

def actResponseBytes (id : Int) : Bytes := ActFrame.encode ⟨id, [49, 10]⟩

def drawn (n : Nat) : Fin 10 × Int := (⟨0, Nat.zero_lt_succ 9⟩, n)

def caParser : HttpParser Unit := ⟨.dead, .ok, ()⟩

/-- A connection is closed before it has sent anything; another one gets its response. -/
theorem no_write_after_close_idle : ∃ (x : Provider Bool) (y : Consumer Unit Bool),
    x.calls = [.close true, .write false] ∧ y.env.calls = [.close true, .write false] ∧
      Orderly x.calls ∧ Orderly y.env.calls := by
  obtain ⟨x, hx, hxcalls⟩ : ∃ x : Provider Bool,
      Provider.Reached 65536 Provider.ClosesIdle x ∧ x.calls = [.close true, .write false] := by
    have hidle : ∃ x₁, Provider.Reached 65536 Provider.ClosesIdle x₁ ∧
        (([.dubboConnect 0, .accept false emptyContext 0, .read false 0 (actBytes 5),
          .dubboRead 0 (dubboBytes 5)].foldlM (Provider.step 65536) x₁).map Provider.calls =
            some [.close true, .write false]) := by
      refine ⟨_, (Relation.ReflTransGen.refl.tail ⟨.accept true emptyContext 0, trivial, rfl⟩).tail
        ⟨.fail true 0 (-4095), ?_, rfl⟩, by decide +kernel⟩
      intro hwaiting
      obtain ⟨id, hid⟩ := hwaiting
      cases hid
    obtain ⟨x₁, hx₁, hrun⟩ := hidle
    obtain ⟨x, hx, hxcalls⟩ := Option.map_eq_some_iff.mp hrun
    exact ⟨x, hx₁.trans (reached_of_foldlM (by simp [Provider.ClosesIdle]) hx), hxcalls⟩
  obtain ⟨y, hy, hycalls⟩ : ∃ y : Consumer Unit Bool,
      Consumer.Reached bodyMachine drawn bkdrHash 65536 Consumer.ClosesIdle y ∧
        y.env.calls = [.close true, .write false] := by
    have hidle : ∃ y₁, Consumer.Reached bodyMachine drawn bkdrHash 65536 Consumer.ClosesIdle y₁ ∧
        (([.accept false caParser 0, .read false 0 bodyBytes, .paConn 0 0, .paKeyWritten 0 0,
          .paRead 0 0 (actResponseBytes 0)].foldlM (Consumer.step bodyMachine drawn 65536)
            y₁).map fun y => y.env.calls) = some [.close true, .write false] := by
      refine ⟨_, (Relation.ReflTransGen.refl.tail ⟨.accept true caParser 0, trivial, rfl⟩).tail
        ⟨.fail true 0 (-4095), ?_, rfl⟩, by decide +kernel⟩
      intro hwaiting
      obtain ⟨k, hk, _⟩ := hwaiting
      cases hk
    obtain ⟨y₁, hy₁, hrun⟩ := hidle
    obtain ⟨y, hy, hycalls⟩ := Option.map_eq_some_iff.mp hrun
    exact ⟨y, hy₁.trans (reached_of_foldlM (by simp [Consumer.ClosesIdle]) hy), hycalls⟩
  exact ⟨x, y, hxcalls, hycalls, no_write_after_close hx hy⟩

/-- Both agents write to a connection that was closed while its request was in flight. -/
theorem write_after_close :
    (∃ x : Provider Unit, Provider.Reached 65536 (fun _ _ => True) x ∧ ¬ Orderly x.calls) ∧
      ∃ y : Consumer Unit Unit,
        Consumer.Reached bodyMachine drawn bkdrHash 65536 (fun _ _ => True) y ∧
          ¬ Orderly y.env.calls := by
  have hcalls : ¬ Orderly [HandleCall.close (), HandleCall.write ()] := by
    simp [Orderly]
  constructor
  · have hrun : ([.dubboConnect 0, .accept () emptyContext 0, .read () 0 (actBytes 5),
        .fail () 0 (-4095), .dubboRead 0 (dubboBytes 5)].foldlM (Provider.step 65536)
        (Provider.start Unit)).map Provider.calls = some [.close (), .write ()] := by
      decide +kernel
    obtain ⟨x, hx, hxcalls⟩ := Option.map_eq_some_iff.mp hrun
    refine ⟨x, reached_of_foldlM (fun _ _ _ => trivial) hx, ?_⟩
    rw [hxcalls]
    exact hcalls
  · have hrun : ([.accept () caParser 0, .read () 0 bodyBytes, .paConn 0 0, .paKeyWritten 0 0,
        .fail () 0 (-4095), .paRead 0 0 (actResponseBytes 0)].foldlM
        (Consumer.step bodyMachine drawn 65536) (Consumer.start Unit Unit bkdrHash)).map
          (fun y => y.env.calls) = some [.close (), .write ()] := by
      decide +kernel
    obtain ⟨y, hy, hycalls⟩ := Option.map_eq_some_iff.mp hrun
    refine ⟨y, reached_of_foldlM (fun _ _ _ => trivial) hy, ?_⟩
    rw [hycalls]
    exact hcalls

end PyAgent.Closing
