import PyAgent.ActServer
import PyAgent.ClientRuns
import PyAgent.Streaming.Interleave
import PyAgent.Streaming.Remote
import PyAgent.Streaming.Runs

/-!
# The mesh around one provider agent

Connections of any number of consumer agents, the provider agent they lead to and the
provider behind it, with the bytes that are under way between them. A byte stream
arrives in order and in pieces of any size; the provider answers the requests it has
been sent in any order. What a request asks for and what comes back are byte strings:
`serves` says which payloads are answers to the body of a Dubbo request.
-/

namespace PyAgent
set_option autoImplicit false

open Streaming

/-- Which of the requests that were sent to the provider it has answered, and what it has sent. -/
structure Service where
  answered : List Nat
  sent : Bytes

/-- The connections of consumer agents, each with the calls of `pa_client_fetch` on it, and how many
of the bytes sent to the provider agent, back to the connections, and by the provider have been
read. -/
structure Mesh (ι γ χ : Type) where
  clients : ι → Option (Link PaReader (PaClient γ χ))
  issued : ι → List (ClientRuns.Call γ χ)
  agent : Closing.Provider ι
  service : Service
  arrived : ι → Nat
  returned : ι → Nat
  heard : Nat

namespace Mesh
variable {ι γ χ : Type} [DecidableEq ι]

inductive Event (ι γ χ : Type) where
  | create (i : ι) (key : ActReuseKey)
  | paConn (i : ι) (status : Int)
  | paKeyWritten (i : ι) (status : Int)
  | fetch (i : ι) (call : ClientRuns.Call γ χ)
  | accept (i : ι) (block : StreamContext)
  | actRead (i : ι) (tie n : Nat)
  | dubboConnect (status : Int)
  | respond (j : Nat) (flags : UInt8 × UInt8) (payload : Bytes)
  | dubboRead (tie n : Nat)
  | paRead (i : ι) (tie n : Nat)

def start (ι γ χ : Type) : Mesh ι γ χ :=
  ⟨fun _ => none, fun _ => [], Closing.Provider.start ι, ⟨[], []⟩, fun _ => 0, fun _ => 0, 0⟩

/-- The bytes a connection has handed to `uv_write`. -/
def outgoing (m : Mesh ι γ χ) (i : ι) : Bytes := (m.clients i).elim [] fun k => k.env.socket

/-- The bytes the provider agent has written to a connection. -/
def incoming (m : Mesh ι γ χ) (i : ι) : Bytes :=
  ((ownedBy Prod.fst i m.agent.dubbo.env.channels).map Prod.snd).flatten

def setClient (m : Mesh ι γ χ) (i : ι) (k : Link PaReader (PaClient γ χ)) : Mesh ι γ χ :=
  { m with clients := Function.update m.clients i (some k) }

/-- `none` where the event cannot happen or where the code does not come back from it. -/
def step (S : Nat) (m : Mesh ι γ χ) : Event ι γ χ → Option (Mesh ι γ χ)
  | .create i key =>
    match m.clients i with
    | none => some (m.setClient i (paLink ⟨[], []⟩ ⟨0, 0, []⟩ (PaClient.create key)))
    | some _ => none
  | .paConn i status =>
    match m.clients i with
    | none => none
    | some k =>
      if k.env.socket = [] then some (m.setClient i { k with env := k.env.onConn status }) else none
  | .paKeyWritten i status =>
    match m.clients i with
    | none => none
    | some k =>
      if k.env.socket ≠ [] ∧ k.env.connected = false then
        some (m.setClient i { k with env := k.env.keyWriteCb status })
      else none
  | .fetch i call =>
    match m.clients i with
    | none => none
    | some k =>
      let k' := { k with env := k.env.fetch call.request call.cb call.context }
      some { m.setClient i k' with
        issued := Function.update m.issued i (m.issued i ++ [call]) }
  | .accept i block =>
    if m.outgoing i = [] then none
    else (m.agent.step S (.accept i block 0)).map fun agent => { m with agent := agent }
  | .actRead i tie n =>
    let chunk := ((m.outgoing i).drop (m.arrived i)).take n
    (m.agent.step S (.read i tie chunk)).map fun agent => { m with
      agent := agent
      arrived := Function.update m.arrived i (m.arrived i + chunk.length) }
  | .dubboConnect status =>
    (m.agent.step S (.dubboConnect status)).map fun agent => { m with agent := agent }
  | .respond j flags payload =>
    match (requestFrames m.agent.dubbo.env.socket)[j]? with
    | none => none
    | some (idBytes, _) =>
      if j ∈ m.service.answered then none
      else some { m with service :=
        ⟨m.service.answered ++ [j],
          m.service.sent ++ (RawDubboFrame.mk flags idBytes payload).encode⟩ }
  | .dubboRead tie n =>
    let chunk := (m.service.sent.drop m.heard).take n
    (m.agent.step S (.dubboRead tie chunk)).map fun agent => { m with
      agent := agent
      heard := m.heard + chunk.length }
  | .paRead i tie n =>
    match m.clients i with
    | none => none
    | some k =>
      if k.env.socket = [] then none
      else
        let chunk := ((m.incoming i).drop (m.returned i)).take n
        (k.complete (paClientReadCbs γ χ) S tie chunk).map fun k' =>
          { m.setClient i k' with
            returned := Function.update m.returned i (m.returned i + chunk.length) }

/-- Keys and requests are what a consumer agent builds, everything fits into a frame, and the
provider sends answers to what it is asked. -/
def Regular (serves : Bytes → Bytes → Prop) (m : Mesh ι γ χ) : Event ι γ χ → Prop
  | .create _ key => key.Wf
  | .fetch i call =>
    call.request.Wf ∧ 0 ≤ call.id ∧ call.id < 2147483648 ∧
      ∀ k, m.clients i = some k → dubboTotalLen (call.request.under k.env.key) < 2147483648
  | .respond j _ payload =>
    16 + payload.length < 2147483648 ∧
      ∀ idBytes body, (requestFrames m.agent.dubbo.env.socket)[j]? = some (idBytes, body) →
        serves body payload
  | _ => True

/-- No connection waits for the id of a new request. Nothing in the code sees to it: an id is
whatever `rand` has drawn for it. -/
def FreshIds (m : Mesh ι γ χ) : Event ι γ χ → Prop
  | .fetch _ call => ∀ i k, m.clients i = some k → k.env.callbacks call.id = none
  | _ => True

def Allowed (serves : Bytes → Bytes → Prop) (m : Mesh ι γ χ) (e : Event ι γ χ) : Prop :=
  Regular serves m e ∧ FreshIds m e

def Reached (serves : Bytes → Bytes → Prop) (S : Nat) : Mesh ι γ χ → Prop :=
  Runs (Allowed serves) (step S) (start ι γ χ)

/-! ## What it is for -/

/-- The calls on a connection, with its key. -/
def calls (m : Mesh ι γ χ) (i : ι) : List (ActReuseKey × ClientRuns.Call γ χ) :=
  (m.clients i).elim [] fun k => (m.issued i).map fun call => (k.env.key, call)

/-- The callbacks made on a connection. -/
def made (m : Mesh ι γ χ) (i : ι) : List (γ × ActResponse × χ) :=
  (m.clients i).elim [] fun k => k.env.calls

def Serves (serves : Bytes → Bytes → Prop) (call : ActReuseKey × ClientRuns.Call γ χ)
    (payload : Bytes) : Prop :=
  serves (dubboBody (call.2.request.under call.1)) payload

/-- What the callback of a call gets for the payload of a provider's answer: the id and context of
that call, and the payload up to its first NUL byte. -/
def handed (call : ActReuseKey × ClientRuns.Call γ χ) (payload : Bytes) : γ × ActResponse × χ :=
  (call.2.cb, ⟨call.2.id, payload.length, nulPadded payload⟩, call.2.context)

/-- The mesh as remote calls: the answers are the callbacks made. -/
structure Shows (m : Mesh ι γ χ) (r : Remote ι (ActReuseKey × ClientRuns.Call γ χ) Bytes) :
    Prop where
  issued : r.issued = m.calls
  answers : ∀ i, List.Forall₂ (fun answer made => ∃ call, (m.calls i)[answer.1]? = some call ∧
    made = handed call answer.2) (r.answers i) (m.made i)

end Mesh
end PyAgent
