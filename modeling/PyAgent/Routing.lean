import PyAgent.DubboClient
import Mathlib.Data.List.Forall2
import Mathlib.Logic.Relation

/-!
# Routing responses in the provider agent

All act connections of a provider agent share one Dubbo client, whose maps know a
request by its id only. Contexts stand for the connections; the provider answers
each request at most once, in any order, and its bytes arrive in any pieces.
-/

namespace PyAgent.Routing
set_option autoImplicit false

open Streaming

structure Call (χ : Type) where
  context : χ
  request : DubboRequest

structure Reply where
  ticket : Nat
  frame : DubboFrame

abbrev State (χ : Type) := Exchange DubboReader (DubboClient χ) (Call χ) Reply

variable {χ : Type}

def Call.id (call : Call χ) : Int := call.request.id

def RoutedTo (issued : List (Call χ)) (r : Reply) (write : χ × Bytes) : Prop :=
  ∃ call, issued[r.ticket]? = some call ∧ write = dubboCallback r.frame.response call.context

structure Holds (l : Ledger (Call χ)) (delivered : List Reply) (client : DubboClient χ) : Prop where
  wf : l.Wf Call.id
  ids : ∀ call ∈ l.issued, 0 ≤ call.id ∧ call.id < 2147483648
  cbs : l.Finds Call.id (fun _ => DubboCallback.dubboCallback) client.cbs
  contexts : l.Finds Call.id Call.context client.contexts
  routed : List.Forall₂ (RoutedTo l.issued) delivered client.channels

theorem RoutedTo.mono {issued : List (Call χ)} {r : Reply} {write : χ × Bytes}
    (h : RoutedTo issued r write) (call : Call χ) : RoutedTo (issued ++ [call]) r write := by
  obtain ⟨call', hcall, hwrite⟩ := h
  obtain ⟨hlt, _⟩ := List.getElem?_eq_some_iff.mp hcall
  exact ⟨call', (List.getElem?_append_left hlt).trans hcall, hwrite⟩

section
variable {l : Ledger (Call χ)} {delivered : List Reply} {client : DubboClient χ}

theorem Holds.serve (hk : Holds l delivered client) {r : Reply} {call : Call χ}
    (hopen : l.Open r.ticket call) (hid : r.frame.id = call.id) :
    ∃ client', client.answer r.frame.response = some client' ∧
      Holds (l.serve r.ticket) (delivered ++ [r]) client' := by
  have hresp : r.frame.response.id = call.id := hid
  have hcb : client.cbs r.frame.response.id = some .dubboCallback := by
    rw [hresp]
    exact hk.cbs.get hopen
  have hcontext : client.contexts r.frame.response.id = some call.context := by
    rw [hresp]
    exact hk.contexts.get hopen
  refine ⟨_, DubboClient.answer_of_some hcb hcontext, hk.wf.serve hopen, hk.ids, ?_, ?_, ?_⟩
  · rw [hresp]
    exact hk.cbs.serve hk.wf hopen
  · rw [hresp]
    exact hk.contexts.serve hk.wf hopen
  · exact List.rel_append hk.routed (.cons ⟨call, hopen.1, rfl⟩ .nil)

theorem Holds.fetch (hk : Holds l delivered client) {call : Call χ}
    (hids : 0 ≤ call.id ∧ call.id < 2147483648) (hfresh : l.Fresh Call.id call) :
    Holds (l.issue call) delivered
      (client.dubboFetch call.request .dubboCallback call.context) := by
  refine ⟨hk.wf.issue hfresh, ?_, ?_, ?_, ?_⟩
  · intro call' hcall'
    rcases List.mem_append.mp hcall' with hcall' | hcall'
    · exact hk.ids call' hcall'
    · rw [List.mem_singleton.mp hcall']
      exact hids
  · rw [DubboClient.dubboFetch, DubboClient.handleQueue_cbs]
    exact hk.cbs.issue hk.wf hfresh
  · rw [DubboClient.dubboFetch, DubboClient.handleQueue_contexts]
    exact hk.contexts.issue hk.wf hfresh
  · rw [DubboClient.dubboFetch, DubboClient.handleQueue_channels]
    exact hk.routed.imp fun _ _ h => h.mono call

theorem Holds.onConnect (hk : Holds l delivered client) (status : Int) :
    Holds l delivered (client.onConnect status) := by
  unfold DubboClient.onConnect
  split
  · exact hk
  · refine ⟨hk.wf, hk.ids, ?_, ?_, ?_⟩
    · rw [DubboClient.handleQueue_cbs]
      exact hk.cbs
    · rw [DubboClient.handleQueue_contexts]
      exact hk.contexts
    · rw [DubboClient.handleQueue_channels]
      exact hk.routed

end

def dialogue (χ : Type) : Dialogue dubboWire (DubboClient.answer (χ := χ)) (Call χ) Reply where
  framing := dubboFraming.comap Reply.frame
  start := ⟨.magic, ⟨0, 0, []⟩⟩
  start_between := rfl
  ticket := Reply.ticket
  answers call r := r.frame.id = call.id
  holds := Holds
  serve _ _ _ _ _ hk hopen hanswers _ := hk.serve hopen hanswers

/-! ## Runs -/

inductive Event (χ : Type) where
  | connect (status : Int)
  | fetch (context : χ) (request : DubboRequest)
  | reply (r : Reply)
  | read (tie n : Nat)

def start (χ : Type) : State χ :=
  ⟨⟨⟨[], []⟩, none, ⟨.magic, ⟨0, 0, []⟩⟩, DubboClient.create⟩, [], [], [], []⟩

/-- `none` where the event cannot happen or where the code does not come back from it. -/
def step (S : Nat) (x : State χ) : Event χ → Option (State χ)
  | .connect status => some { x with link := { x.link with env := x.link.env.onConnect status } }
  | .fetch context request => some { x with
      issued := x.issued ++ [⟨context, request⟩]
      link := { x.link with env := x.link.env.dubboFetch request .dubboCallback context } }
  | .reply r =>
    match x.issued[r.ticket]? with
    | none => none
    | some call =>
      if x.link.env.connected ∧ r.frame.id = call.id ∧ r.ticket ∉ x.replies.map Reply.ticket ∧
          r.frame.encode.length < 2147483648 then
        some (x.reply (fun r => r.frame.encode) r)
      else none
  | .read tie n =>
    if x.link.env.connected then x.read (dubboReadCbs χ) S tie n else none

/-- Ids in flight on one connection are distinct and not negative, as the consumer agents see to. -/
def DistinctIds (x : State χ) : Event χ → Prop
  | .fetch context request => (0 ≤ request.id ∧ request.id < 2147483648) ∧
      ∀ j call, (x.ledger (dialogue χ)).Open j call → call.context = context →
        call.id ≠ request.id
  | _ => True

/-- No request of another connection with the same id is unanswered. -/
def UnsharedId (x : State χ) : Event χ → Prop
  | .fetch context request => ∀ j call, (x.ledger (dialogue χ)).Open j call →
      call.context ≠ context → call.id ≠ request.id
  | _ => True

def Reached (S : Nat) (ok : State χ → Event χ → Prop) : State χ → Prop :=
  Relation.ReflTransGen (fun x x' => ∃ e, ok x e ∧ step S x e = some x') (start χ)

/-- Every response delivered so far was written to the channel of its request's connection, one
write for each response; the requests that wait for one are registered with their own connection;
and the next read comes back too. -/
structure Routed (S : Nat) (x : State χ) : Prop where
  channels : List.Forall₂ (RoutedTo x.issued) (x.delivered (dialogue χ)) x.link.env.channels
  once : (x.replies.map Reply.ticket).Nodup
  waiting : ∀ j call, (x.ledger (dialogue χ)).Open j call →
    x.link.env.cbs call.id = some .dubboCallback ∧
      x.link.env.contexts call.id = some call.context
  comes_back : x.link.env.connected → ∀ tie n,
    (∀ m, x.link.room (dubboReadCbs χ) S tie = some m → (x.wire.take n).length ≤ m) →
      (step S x (.read tie n)).isSome

theorem inv_start (χ : Type) (cap : Nat) : (start χ).Inv (dialogue χ) cap := by
  have hdelivered : (start χ).delivered (dialogue χ) = [] := rfl
  refine ⟨dubboLink_good (BufStore.wf_empty cap) ⟨0, 0, []⟩ DubboClient.create, rfl,
    by simp [start], List.nodup_nil, ?_, ?_⟩
  · rw [hdelivered]
    exact ⟨.refl _ _, dubboFraming.need_pos _ rfl⟩
  · exact ⟨Ledger.wf_empty _, by simp [start, Exchange.ledger], Ledger.finds_empty _ _,
      Ledger.finds_empty _ _, .nil⟩

section
variable {S : Nat} (hS : 3 ≤ S) (hcap : toUInt32 S < 2147483648)
include hS hcap

theorem inv_step {x x' : State χ} {e : Event χ} (hx : x.Inv (dialogue χ) (toUInt32 S))
    (hdistinct : DistinctIds x e) (hunshared : UnsharedId x e) (hstep : step S x e = some x') :
    x'.Inv (dialogue χ) (toUInt32 S) := by
  cases e with
  | connect status =>
    obtain rfl := Option.some.inj hstep
    exact hx.setEnv (hx.holds.onConnect status)
  | fetch context request =>
    obtain rfl := Option.some.inj hstep
    obtain ⟨hids, hdistinct⟩ := hdistinct
    have hfresh : (x.ledger (dialogue χ)).Fresh Call.id ⟨context, request⟩ := by
      intro j call hopen
      by_cases hcontext : call.context = context
      · exact hdistinct j call hopen hcontext
      · exact hunshared j call hopen hcontext
    exact hx.update (hx.holds.fetch hids hfresh)
  | reply r =>
    simp only [step] at hstep
    split at hstep
    · cases hstep
    · rename_i call hcall
      split at hstep
      · rename_i hguard
        obtain ⟨_, hid, honce, hlen⟩ := hguard
        obtain rfl := Option.some.inj hstep
        obtain ⟨h0, h1⟩ := hx.holds.ids call (List.mem_of_getElem? hcall)
        exact hx.reply (P := dialogue χ) ⟨by rw [hid]; exact h0, by rw [hid]; exact h1, hlen⟩ hcall
          hid honce
      · cases hstep
  | read tie n =>
    simp only [step] at hstep
    split at hstep
    · exact hx.of_read (dubboReadCbs_implements χ) hS hcap hstep
    · cases hstep

theorem inv_of_reached {x : State χ}
    (h : Reached S (fun x e => DistinctIds x e ∧ UnsharedId x e) x) :
    x.Inv (dialogue χ) (toUInt32 S) := by
  induction h with
  | refl => exact inv_start χ _
  | tail _ hstep ih =>
    obtain ⟨e, ⟨hdistinct, hunshared⟩, hstep⟩ := hstep
    exact inv_step hS hcap ih hdistinct hunshared hstep

/-- As long as no id is in flight on two connections at once, every response reaches the
connection of its request. -/
theorem routed_of_unshared {x : State χ}
    (h : Reached S (fun x e => DistinctIds x e ∧ UnsharedId x e) x) : Routed S x := by
  have hx := inv_of_reached hS hcap h
  refine ⟨hx.holds.routed, hx.once, ?_, ?_⟩
  · intro j call hopen
    exact ⟨hx.holds.cbs.get hopen, hx.holds.contexts.get hopen⟩
  · intro hconnected tie n hroom
    obtain ⟨x', hread, _⟩ := hx.read (dubboReadCbs_implements χ) hS hcap hroom
    rw [step, if_pos hconnected, hread]
    rfl

end

def bareRequest (id : Int) : DubboRequest :=
  dubboRequestFromAct { id := id, pLen := 0, parameter := [] }

/-- Two connections with ids of their own, answered in the other order. -/
theorem routed_of_unshared_two_connections :
    ∃ x : State Bool, Reached 65536 (fun x e => DistinctIds x e ∧ UnsharedId x e) x ∧
      x.link.env.channels.map Prod.fst = [true, false] ∧ Routed 65536 x := by
  obtain ⟨x, hreached, hread⟩ : ∃ x : State Bool,
      Reached 65536 (fun x e => DistinctIds x e ∧ UnsharedId x e) x ∧
      (step 65536 x (.read 0 50)).map (fun x' => x'.link.env.channels.map Prod.fst) =
        some [true, false] := by
    refine ⟨_, ((((Relation.ReflTransGen.refl.tail ⟨.connect 0, ⟨trivial, trivial⟩, rfl⟩).tail
      ⟨.fetch false (bareRequest 1), ⟨⟨by decide, ?_⟩, ?_⟩, rfl⟩).tail
      ⟨.fetch true (bareRequest 2), ⟨⟨by decide, ?_⟩, ?_⟩, rfl⟩).tail
      ⟨.reply ⟨1, ⟨(0, 0), 2, [7]⟩⟩, ⟨trivial, trivial⟩, rfl⟩).tail
      ⟨.reply ⟨0, ⟨(0, 0), 1, []⟩⟩, ⟨trivial, trivial⟩, rfl⟩, by decide +kernel⟩
    · intro j call hopen
      obtain ⟨hget, _⟩ := hopen
      cases hget
    · intro j call hopen
      obtain ⟨hget, _⟩ := hopen
      cases hget
    all_goals
      intro j call hopen _
      obtain ⟨hget, _⟩ := hopen
      cases j with
      | zero =>
        obtain rfl := Option.some.inj hget
        decide
      | succ j => cases hget
  obtain ⟨x', hstep, hchannels⟩ := Option.map_eq_some_iff.mp hread
  have hreached' := hreached.tail ⟨.read 0 50, ⟨trivial, trivial⟩, hstep⟩
  exact ⟨x', hreached', hchannels, routed_of_unshared (by decide) (by decide) hreached'⟩

/-- Two connections use one id: the response to the first request goes to the second one. -/
theorem misrouted_shared_id :
    ¬ ∀ x : State Bool, Reached 65536 DistinctIds x → Routed 65536 x := by
  intro h
  obtain ⟨x, hreached, hread⟩ : ∃ x : State Bool, Reached 65536 DistinctIds x ∧
      (step 65536 x (.read 0 17)).map (fun x' => (x'.issued.map Call.context,
        (x'.delivered (dialogue Bool)).map Reply.ticket, x'.link.env.channels.map Prod.fst)) =
        some ([false, true], [0], [true]) := by
    refine ⟨_, (((Relation.ReflTransGen.refl.tail ⟨.connect 0, trivial, rfl⟩).tail
      ⟨.fetch false (bareRequest 5), ⟨by decide, ?_⟩, rfl⟩).tail
      ⟨.fetch true (bareRequest 5), ⟨by decide, ?_⟩, rfl⟩).tail
      ⟨.reply ⟨0, ⟨(0, 0), 5, [7]⟩⟩, trivial, rfl⟩, by decide +kernel⟩
    · intro j call hopen
      obtain ⟨hget, _⟩ := hopen
      cases hget
    · intro j call hopen hcontext
      obtain ⟨hget, _⟩ := hopen
      cases j with
      | zero =>
        obtain rfl := Option.some.inj hget
        cases hcontext
      | succ j => cases hget
  obtain ⟨x', hstep, hproj⟩ := Option.map_eq_some_iff.mp hread
  simp only [Prod.mk.injEq] at hproj
  obtain ⟨hissued, hdelivered, hchannels⟩ := hproj
  have hrouted := (h x' (hreached.tail ⟨.read 0 17, trivial, hstep⟩)).channels
  generalize x'.delivered (dialogue Bool) = delivered at hdelivered hrouted
  generalize x'.link.env.channels = channels at hchannels hrouted
  cases hrouted with
  | nil => cases hdelivered
  | cons hr _ =>
    obtain ⟨call, hcall, rfl⟩ := hr
    simp only [List.map_cons, List.cons.injEq] at hdelivered hchannels
    have hfirst := congrArg (Option.map Call.context) hcall
    rw [hdelivered.1, ← List.getElem?_map, hissued] at hfirst
    simp [dubboCallback] at hfirst hchannels
    rw [hchannels.1] at hfirst
    cases hfirst

end PyAgent.Routing
