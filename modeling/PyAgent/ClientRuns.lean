import PyAgent.PaClient
import Mathlib.Data.List.Forall2
import Mathlib.Logic.Relation

/-!
# Runs of a consumer agent's connection

Fetches, the connection coming up, the key being written and responses arriving, in
any order the event loop allows. The peer answers each request it has been sent at
most once, in any order, and its bytes arrive in any pieces.
-/

namespace PyAgent.ClientRuns
set_option autoImplicit false

open Streaming

structure Call (γ χ : Type) where
  request : ActRequest
  cb : γ
  context : χ

/-- The response to the call at position `ticket`. -/
structure Reply where
  ticket : Nat
  frame : ActFrame

abbrev State (γ χ : Type) := Exchange PaReader (PaClient γ χ) (Call γ χ) Reply

variable {γ χ : Type}

def Call.id (call : Call γ χ) : Int := call.request.id

def CalledBack (issued : List (Call γ χ)) (r : Reply) (made : γ × ActResponse × χ) : Prop :=
  ∃ call, issued[r.ticket]? = some call ∧ made = (call.cb, r.frame.response, call.context)

/-- The requests written so far and the queue are all the requests, and the socket has the key in
front of those written. -/
def Sent (key : ActReuseKey) (requests : List ActRequest) (client : PaClient γ χ) : Prop :=
  ∃ sent, requests = sent ++ client.que ∧
    (client.socket = [] ∧ sent = [] ∧ client.connected = false ∨
      client.socket = paEncodeActKey key ++ (sent.map paActRequestEncode).flatten)

section
variable {key : ActReuseKey} {requests : List ActRequest} {client : PaClient γ χ}

theorem Sent.handleQueue (h : Sent key requests client) : Sent key requests client.handleQueue := by
  unfold PaClient.handleQueue
  split
  · rename_i hconnected
    obtain ⟨sent, hsplit, ⟨_, _, hoff⟩ | hsocket⟩ := h
    · rw [hoff] at hconnected
      cases hconnected
    · refine ⟨sent ++ client.que, by simp [hsplit], Or.inr ?_⟩
      simp [hsocket]
  · exact h

theorem Sent.fetch (h : Sent key requests client) (req : ActRequest) (cb : γ) (context : χ) :
    Sent key (requests ++ [req]) (client.fetch req cb context) := by
  apply Sent.handleQueue
  obtain ⟨sent, hsplit, hsocket⟩ := h
  exact ⟨sent, by simp [hsplit], hsocket⟩

theorem Sent.onConn (h : Sent client.key requests client) (hempty : client.socket = [])
    (status : Int) : Sent client.key requests (client.onConn status) := by
  unfold PaClient.onConn
  split
  · exact h
  · apply Sent.handleQueue
    obtain ⟨sent, hsplit, ⟨_, hsent, _⟩ | hsocket⟩ := h
    · exact ⟨sent, hsplit, Or.inr (by simp [hempty, hsent])⟩
    · rw [hempty] at hsocket
      simp [paEncodeActKey] at hsocket

theorem Sent.keyWriteCb (h : Sent key requests client) (hkey : client.socket ≠ []) (status : Int) :
    Sent key requests (client.keyWriteCb status) := by
  unfold PaClient.keyWriteCb
  split
  · exact h
  · apply Sent.handleQueue
    obtain ⟨sent, hsplit, ⟨hempty, _⟩ | hsocket⟩ := h
    · exact absurd hempty hkey
    · exact ⟨sent, hsplit, Or.inr hsocket⟩

end

structure Holds (key : ActReuseKey) (l : Ledger (Call γ χ)) (delivered : List Reply)
    (client : PaClient γ χ) : Prop where
  wf : l.Wf Call.id
  ids : ∀ call ∈ l.issued, IsInt32 call.id
  callbacks : l.Finds Call.id Call.cb client.callbacks
  contexts : l.Finds Call.id Call.context client.contexts
  called : List.Forall₂ (CalledBack l.issued) delivered client.calls
  key_eq : client.key = key
  sent : Sent key (l.issued.map Call.request) client

theorem CalledBack.mono {issued : List (Call γ χ)} {r : Reply} {made : γ × ActResponse × χ}
    (h : CalledBack issued r made) (call : Call γ χ) : CalledBack (issued ++ [call]) r made := by
  obtain ⟨call', hcall, hmade⟩ := h
  obtain ⟨hlt, _⟩ := List.getElem?_eq_some_iff.mp hcall
  exact ⟨call', (List.getElem?_append_left hlt).trans hcall, hmade⟩

section
variable {key : ActReuseKey} {l : Ledger (Call γ χ)} {delivered : List Reply}
variable {client : PaClient γ χ}

theorem Holds.serve (hk : Holds key l delivered client) {r : Reply} {call : Call γ χ}
    (hopen : l.Open r.ticket call) (hid : r.frame.id = call.id) :
    ∃ client', client.answer r.frame.response = some client' ∧
      Holds key (l.serve r.ticket) (delivered ++ [r]) client' := by
  have hresp : r.frame.response.id = call.id := hid
  have hcb : client.callbacks r.frame.response.id = some call.cb := by
    rw [hresp]
    exact hk.callbacks.get hopen
  have hcontext : client.contexts r.frame.response.id = some call.context := by
    rw [hresp]
    exact hk.contexts.get hopen
  refine ⟨_, PaClient.answer_of_some hcb hcontext, hk.wf.serve hopen, hk.ids, ?_, ?_, ?_,
    hk.key_eq, hk.sent⟩
  · rw [hresp]
    exact hk.callbacks.serve hk.wf hopen
  · rw [hresp]
    exact hk.contexts.serve hk.wf hopen
  · exact List.rel_append hk.called (.cons ⟨call, hopen.1, rfl⟩ .nil)

theorem Holds.fetch (hk : Holds key l delivered client) {call : Call γ χ}
    (hid : IsInt32 call.id) (hfresh : l.Fresh Call.id call) :
    Holds key (l.issue call) delivered (client.fetch call.request call.cb call.context) := by
  refine ⟨hk.wf.issue hfresh, ?_, ?_, ?_, ?_, ?_, ?_⟩
  · intro call' hcall'
    rcases List.mem_append.mp hcall' with hcall' | hcall'
    · exact hk.ids call' hcall'
    · rw [List.mem_singleton.mp hcall']
      exact hid
  · rw [PaClient.fetch, PaClient.handleQueue_callbacks]
    exact hk.callbacks.issue hk.wf hfresh
  · rw [PaClient.fetch, PaClient.handleQueue_contexts]
    exact hk.contexts.issue hk.wf hfresh
  · rw [PaClient.fetch, PaClient.handleQueue_calls]
    exact hk.called.imp fun _ _ h => h.mono call
  · rw [PaClient.fetch, PaClient.handleQueue_key]
    exact hk.key_eq
  · rw [Ledger.issue, List.map_append]
    exact hk.sent.fetch call.request call.cb call.context

theorem Holds.frame (hk : Holds key l delivered client) {client' : PaClient γ χ}
    (hcallbacks : client'.callbacks = client.callbacks)
    (hcontexts : client'.contexts = client.contexts) (hcalls : client'.calls = client.calls)
    (hkey : client'.key = client.key) (hsent : Sent key (l.issued.map Call.request) client') :
    Holds key l delivered client' :=
  ⟨hk.wf, hk.ids, hcallbacks ▸ hk.callbacks, hcontexts ▸ hk.contexts, hcalls ▸ hk.called,
    hkey.trans hk.key_eq, hsent⟩

theorem Holds.onConn (hk : Holds key l delivered client) (hempty : client.socket = [])
    (status : Int) : Holds key l delivered (client.onConn status) := by
  have hsent := hk.sent
  rw [← hk.key_eq] at hsent
  have hsent' := hsent.onConn hempty status
  rw [hk.key_eq] at hsent'
  refine hk.frame ?_ ?_ ?_ ?_ hsent' <;> (unfold PaClient.onConn; split <;> simp)

theorem Holds.keyWriteCb (hk : Holds key l delivered client) (hkey : client.socket ≠ [])
    (status : Int) : Holds key l delivered (client.keyWriteCb status) := by
  refine hk.frame ?_ ?_ ?_ ?_ (hk.sent.keyWriteCb hkey status) <;>
    (unfold PaClient.keyWriteCb; split <;> simp)

end

def dialogue (γ χ : Type) (key : ActReuseKey) :
    Dialogue paWire (PaClient.answer (γ := γ) (χ := χ)) (Call γ χ) Reply where
  framing := paFraming.comap Reply.frame
  start := ⟨.id, ⟨0, 0, []⟩⟩
  start_between := rfl
  ticket := Reply.ticket
  answers call r := r.frame.id = call.id
  holds := Holds key
  serve _ _ _ _ _ hk hopen hanswers _ := hk.serve hopen hanswers

/-! ## Runs -/

inductive Event (γ χ : Type) where
  | onConn (status : Int)
  | keyWritten (status : Int)
  | fetch (call : Call γ χ)
  | reply (r : Reply)
  | read (tie n : Nat)

def start (γ χ : Type) (key : ActReuseKey) : State γ χ :=
  ⟨⟨⟨[], []⟩, none, ⟨.id, ⟨0, 0, []⟩⟩, PaClient.create key⟩, [], [], [], []⟩

/-- `none` where the event cannot happen or where the code does not come back from it. The key is on
the socket from the moment the connection is up; reading starts then. -/
def step (S : Nat) (x : State γ χ) : Event γ χ → Option (State γ χ)
  | .onConn status =>
    if x.link.env.socket = [] then
      some { x with link := { x.link with env := x.link.env.onConn status } }
    else none
  | .keyWritten status =>
    if x.link.env.socket ≠ [] ∧ x.link.env.connected = false then
      some { x with link := { x.link with env := x.link.env.keyWriteCb status } }
    else none
  | .fetch call =>
    if IsInt32 call.id then
      some { x with
        issued := x.issued ++ [call]
        link := { x.link with env := x.link.env.fetch call.request call.cb call.context } }
    else none
  | .reply r =>
    match x.issued[r.ticket]? with
    | none => none
    | some call =>
      if r.ticket + x.link.env.que.length < x.issued.length ∧ r.frame.id = call.id ∧
          r.ticket ∉ x.replies.map Reply.ticket ∧ r.frame.encode.length < 2147483648 then
        some (x.reply (fun r => r.frame.encode) r)
      else none
  | .read tie n =>
    if x.link.env.socket ≠ [] then x.read (paClientReadCbs γ χ) S tie n else none

def DistinctIds (key : ActReuseKey) (x : State γ χ) : Event γ χ → Prop
  | .fetch call => ∀ j call', (x.ledger (dialogue γ χ key)).Open j call' → call'.id ≠ call.id
  | _ => True

def Reached (S : Nat) (key : ActReuseKey) : State γ χ → Prop :=
  Relation.ReflTransGen (fun x x' => ∃ e, DistinctIds key x e ∧ step S x e = some x')
    (start γ χ key)

/-- Nothing is lost, sent twice or sent before the key; every response delivered so far was handed
to the callback of its request with that request's context; the maps wait for exactly the requests
that are not answered yet; and the next read comes back. -/
structure Sound (S : Nat) (key : ActReuseKey) (x : State γ χ) : Prop where
  sent : ∃ sent, x.issued.map Call.request = sent ++ x.link.env.que ∧
    (x.link.env.socket = [] ∧ sent = [] ∨
      x.link.env.socket = paEncodeActKey key ++ (sent.map paActRequestEncode).flatten)
  called : List.Forall₂ (CalledBack x.issued) (x.delivered (dialogue γ χ key)) x.link.env.calls
  once : (x.replies.map Reply.ticket).Nodup
  callbacks : ∀ id, (x.link.env.callbacks id).isSome ↔
    ∃ j call, (x.ledger (dialogue γ χ key)).Open j call ∧ call.id = id
  contexts : ∀ id, (x.link.env.contexts id).isSome ↔
    ∃ j call, (x.ledger (dialogue γ χ key)).Open j call ∧ call.id = id
  comes_back : x.link.env.socket ≠ [] → ∀ tie n,
    (∀ m, x.link.room (paClientReadCbs γ χ) S tie = some m → (x.wire.take n).length ≤ m) →
      (step S x (.read tie n)).isSome

theorem inv_start (key : ActReuseKey) (cap : Nat) :
    (start γ χ key).Inv (dialogue γ χ key) cap := by
  have hdelivered : (start γ χ key).delivered (dialogue γ χ key) = [] := rfl
  refine ⟨paLink_good (BufStore.wf_empty cap) ⟨0, 0, []⟩ (PaClient.create key), rfl,
    by simp [start], List.nodup_nil, ?_, ?_⟩
  · rw [hdelivered]
    exact ⟨.refl _ _, paFraming.need_pos _ rfl⟩
  · exact ⟨Ledger.wf_empty _, by simp [start, Exchange.ledger], Ledger.finds_empty _ _,
      Ledger.finds_empty _ _, .nil, rfl, ⟨[], rfl, Or.inl ⟨rfl, rfl, rfl⟩⟩⟩

section
variable {S : Nat} {key : ActReuseKey} (hS : 3 ≤ S) (hcap : toUInt32 S < 2147483648)
include hS hcap

theorem inv_step {x x' : State γ χ} {e : Event γ χ}
    (hx : x.Inv (dialogue γ χ key) (toUInt32 S)) (hdistinct : DistinctIds key x e)
    (hstep : step S x e = some x') : x'.Inv (dialogue γ χ key) (toUInt32 S) := by
  cases e with
  | onConn status =>
    simp only [step] at hstep
    split at hstep
    · rename_i hempty
      obtain rfl := Option.some.inj hstep
      exact hx.setEnv (hx.holds.onConn hempty status)
    · cases hstep
  | keyWritten status =>
    simp only [step] at hstep
    split at hstep
    · rename_i hguard
      obtain rfl := Option.some.inj hstep
      exact hx.setEnv (hx.holds.keyWriteCb hguard.1 status)
    · cases hstep
  | fetch call =>
    simp only [step] at hstep
    split at hstep
    · rename_i hid
      obtain rfl := Option.some.inj hstep
      exact hx.update (hx.holds.fetch hid hdistinct)
    · cases hstep
  | reply r =>
    simp only [step] at hstep
    split at hstep
    · cases hstep
    · rename_i call hcall
      split at hstep
      · rename_i hguard
        obtain ⟨_, hid, honce, hlen⟩ := hguard
        obtain rfl := Option.some.inj hstep
        have hint := hx.holds.ids call (List.mem_of_getElem? hcall)
        exact hx.reply (P := dialogue γ χ key) ⟨by rw [hid]; exact hint, hlen⟩ hcall hid honce
      · cases hstep
  | read tie n =>
    simp only [step] at hstep
    split at hstep
    · exact hx.of_read (paClientReadCbs_implements γ χ) hS hcap hstep
    · cases hstep

theorem inv_of_reached {x : State γ χ} (h : Reached S key x) :
    x.Inv (dialogue γ χ key) (toUInt32 S) := by
  induction h with
  | refl => exact inv_start key _
  | tail _ hstep ih =>
    obtain ⟨e, hdistinct, hstep⟩ := hstep
    exact inv_step hS hcap ih hdistinct hstep

theorem sound_of_reached {x : State γ χ} (h : Reached S key x) : Sound S key x := by
  have hx := inv_of_reached hS hcap h
  refine ⟨?_, hx.holds.called, hx.once, hx.holds.callbacks.isSome_iff,
    hx.holds.contexts.isSome_iff, ?_⟩
  · obtain ⟨sent, hsplit, ⟨hempty, hnone, _⟩ | hsocket⟩ := hx.holds.sent
    · exact ⟨sent, hsplit, Or.inl ⟨hempty, hnone⟩⟩
    · exact ⟨sent, hsplit, Or.inr hsocket⟩
  · intro hsocket tie n hroom
    obtain ⟨x', hread, _⟩ := hx.read (paClientReadCbs_implements γ χ) hS hcap hroom
    rw [step, if_pos hsocket, hread]
    rfl

end

/-- One request before the key is written and one behind it, answered in the other order. -/
theorem sound_of_reached_two_calls :
    let key : ActReuseKey := ⟨[73], 1, [], 0, [83], 1⟩
    ∃ x : State Nat Nat, Reached 65536 key x ∧
      x.link.env.calls.map (fun made => (made.1, made.2.1.id, made.2.2)) =
        [(20, 2, 21), (10, 1, 11)] ∧
      Sound 65536 key x := by
  intro key
  obtain ⟨x, hreached, hread⟩ : ∃ x : State Nat Nat, Reached 65536 key x ∧
      (step 65536 x (.read 0 18)).map (fun x' =>
        x'.link.env.calls.map fun made => (made.1, made.2.1.id, made.2.2)) =
          some [(20, 2, 21), (10, 1, 11)] := by
    refine ⟨_, ((((((Relation.ReflTransGen.refl.tail ⟨.onConn 0, trivial, rfl⟩).tail
      ⟨.fetch ⟨{ id := 1, pLen := 0, parameter := [] }, 10, 11⟩, ?_, rfl⟩).tail
      ⟨.keyWritten 0, trivial, rfl⟩).tail
      ⟨.fetch ⟨{ id := 2, pLen := 1, parameter := [80] }, 20, 21⟩, ?_, rfl⟩).tail
      ⟨.reply ⟨1, ⟨2, [7, 8]⟩⟩, trivial, rfl⟩).tail
      ⟨.reply ⟨0, ⟨1, []⟩⟩, trivial, rfl⟩), by decide +kernel⟩
    · intro j call hopen
      obtain ⟨hget, _⟩ := hopen
      cases hget
    · intro j call hopen
      obtain ⟨hget, _⟩ := hopen
      cases j with
      | zero =>
        obtain rfl := Option.some.inj hget
        decide
      | succ j => cases hget
  obtain ⟨x', hstep, hcalls⟩ := Option.map_eq_some_iff.mp hread
  have hreached' := hreached.tail ⟨.read 0 18, trivial, hstep⟩
  exact ⟨x', hreached', hcalls, sound_of_reached (by decide) (by decide) hreached'⟩

end PyAgent.ClientRuns
