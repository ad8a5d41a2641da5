import PyAgent.ReadLoops
import PyAgent.ResponsePath

/-!
# Responses nobody waits for

A peer that sends any frames it likes: a second answer to a call, an answer to no
call, a heartbeat of the provider. The read callbacks look the id up in their maps
and call what they find there without looking at it. An agent that ignored such
frames would be `tolerate`; `unexpected_iff` says when the code is one.
-/

namespace PyAgent
set_option autoImplicit false

open Streaming Relation

section
variable {τ σ ω κ ρ : Type} [DecidableEq τ]

/-- An exchange in which no account is kept of the requests. -/
abbrev Feed (σ κ ρ : Type) := Exchange σ κ Empty ρ

namespace Feed
variable {W : Wire τ σ ω} {hook : κ → ω → Option κ} (F : W.decoder.Framing ρ)

def start (k : Link σ κ) : Feed σ κ ρ := ⟨k, [], [], [], []⟩

def arrived (x : Feed σ κ ρ) : List ρ := Decoder.complete F.enc x.replies x.received.length

/-- The frames that the next `n` bytes complete. -/
def completed (n : Nat) (x : Feed σ κ ρ) : List ρ :=
  (Decoder.complete F.enc x.replies (x.received ++ x.wire.take n).length).drop
    (x.arrived F).length

/-- The program calls into its client, the peer sends a frame, or bytes are read. -/
inductive Step (C : ReadCbs σ κ) (S : Nat) (calls : κ → κ → Prop) :
    Feed σ κ ρ → Feed σ κ ρ → Prop where
  | call {x : Feed σ κ ρ} {k : κ} : calls x.link.env k →
      Step C S calls x { x with link := { x.link with env := k } }
  | send {x : Feed σ κ ρ} {r : ρ} : F.good r → Step C S calls x (x.reply F.enc r)
  | read {x x' : Feed σ κ ρ} {tie n : Nat} : x.read C S tie n = some x' → Step C S calls x x'

structure Inv (cap : Nat) (x : Feed σ κ ρ) : Prop where
  good : x.link.Good W cap
  stream : x.received ++ x.wire = (x.replies.map F.enc).flatten
  frames : ∀ r ∈ x.replies, F.good r
  settled : ∃ s, F.between s ∧
    W.decoder.Settles s x.received ((x.arrived F).map F.out) x.link.ctx x.link.unread

variable {F} {cap : Nat} {x : Feed σ κ ρ}

theorem arrived_completed (n : Nat) (x : Feed σ κ ρ) : x.arrived F ++ x.completed F n =
    Decoder.complete F.enc x.replies (x.received ++ x.wire.take n).length := by
  have hle : x.received.length ≤ (x.received ++ x.wire.take n).length := by simp
  obtain ⟨more, hmore⟩ := Decoder.complete_mono F.enc x.replies hle
  rw [completed, ← hmore, arrived, List.drop_left]

theorem Inv.waits (hx : x.Inv F cap) : W.decoder.Waits x.link.ctx x.link.unread := by
  obtain ⟨s, _, hs⟩ := hx.settled
  exact hs.2

/-- The decoder settles on a read of any size, and puts out what the frames it completes say. -/
theorem Inv.read_settles (hx : x.Inv F cap) (n : Nat) :
    ∃ s, F.between s ∧ ∃ s' us', W.decoder.Settles s (x.received ++ x.wire.take n)
      ((x.arrived F ++ x.completed F n).map F.out) s' us' ∧
        W.decoder.Settles x.link.ctx (x.link.unread ++ x.wire.take n)
          ((x.completed F n).map F.out) s' us' := by
  obtain ⟨s, hbetween, hs⟩ := hx.settled
  have hstarts : x.received ++ x.wire.take n <+: (x.replies.map F.enc).flatten := by
    rw [← hx.stream]
    exact (List.prefix_append_right_inj _).mpr (List.take_prefix n x.wire)
  obtain ⟨s', us', hs'⟩ := F.settle hx.frames hbetween hstarts
  rw [← arrived_completed] at hs'
  refine ⟨s, hbetween, s', us', hs', ?_⟩
  rw [List.map_append] at hs'
  obtain ⟨os, hos, hafter⟩ := hs'.after (hs.1.append (x.wire.take n))
  rw [List.append_cancel_left hos]
  exact hafter

theorem Inv.send (hx : x.Inv F cap) {r : ρ} (hr : F.good r) : Inv F cap (x.reply F.enc r) := by
  obtain ⟨s, hbetween, hs⟩ := hx.settled
  refine ⟨hx.good, ?_, ?_, s, hbetween, ?_⟩
  · simp only [Exchange.reply, List.map_append, List.flatten_append, ← List.append_assoc, hx.stream]
    simp
  · intro r' hr'
    rcases List.mem_append.mp hr' with hr' | hr'
    · exact hx.frames r' hr'
    · rw [List.mem_singleton.mp hr']
      exact hr
  · have harrived : Feed.arrived F (x.reply F.enc r) = x.arrived F := by
      refine Decoder.complete_append _ ?_ F.enc_pos
      rw [← hx.stream, List.length_append]
      exact Nat.le_add_right _ _
    rw [harrived]
    exact hs

theorem Inv.call (hx : x.Inv F cap) (k : κ) :
    Inv F cap { x with link := { x.link with env := k } } :=
  ⟨⟨hx.good.wf, hx.good.holds, hx.good.ok⟩, hx.stream, hx.frames, hx.settled⟩

section
variable {C : ReadCbs σ κ} {S : Nat} (hC : C.Implements W hook) (hS : 3 ≤ S)
variable (hcap : toUInt32 S < 2147483648)
include hC hS hcap

theorem Inv.of_read (hx : x.Inv F (toUInt32 S)) {tie n : Nat} {x' : Feed σ κ ρ}
    (h : x.read C S tie n = some x') : x'.Inv F (toUInt32 S) ∧
      ((x.completed F n).map F.out).foldlM hook x.link.env = some x'.link.env := by
  obtain ⟨link, hlink, rfl⟩ := Option.map_eq_some_iff.mp h
  obtain ⟨hgood, os, hs, henv⟩ := Link.settles_of_complete hC hS hx.good
    (Link.room_of_complete hcap hlink) hx.waits hlink
  obtain ⟨s, hbetween, s', us', hall, hnext⟩ := hx.read_settles n
  obtain ⟨rfl, rfl, rfl⟩ := hs.unique hnext
  refine ⟨⟨hgood, ?_, hx.frames, s, hbetween, ?_⟩, henv⟩
  · rw [← hx.stream, List.append_assoc, List.take_append_drop]
  · rw [arrived_completed] at hall
    exact hall

/-- A read comes back exactly when the callbacks for the frames it completes all do. -/
theorem Inv.read_iff (hx : x.Inv F (toUInt32 S)) {tie n : Nat}
    (hroom : ∀ m, x.link.room C S tie = some m → (x.wire.take n).length ≤ m) (k : κ) :
    (∃ x', x.read C S tie n = some x' ∧ x'.link.env = k) ↔
      ((x.completed F n).map F.out).foldlM hook x.link.env = some k := by
  constructor
  · intro h
    obtain ⟨x', hread, rfl⟩ := h
    exact (hx.of_read hC hS hcap hread).2
  · intro henv
    obtain ⟨_, _, s', us', _, hnext⟩ := hx.read_settles n
    have hroom' : ∀ m, x.link.room C S tie = some m → (x.wire.take n).length ≤ m ∧
        toUInt32 S + (x.wire.take n).length < 2147483648 + m := by
      intro m hm
      have hfit := hroom m hm
      exact ⟨hfit, by omega⟩
    obtain ⟨link, hlink, _, _, _, hen⟩ :=
      Link.complete_spec hC hS hx.good tie _ hroom' hx.waits hnext henv
    refine ⟨{ x with
      link := link, wire := x.wire.drop n, received := x.received ++ x.wire.take n }, ?_, hen⟩
    rw [Exchange.read, hlink]
    rfl

theorem inv_of_steps {calls : κ → κ → Prop} {x' : Feed σ κ ρ}
    (h : ReflTransGen (Step F C S calls) x x') (hx : x.Inv F (toUInt32 S)) :
    x'.Inv F (toUInt32 S) := by
  induction h with
  | refl => exact hx
  | tail _ hstep ih =>
    cases hstep with
    | call _ => exact ih.call _
    | send hr => exact ih.send hr
    | read hread => exact (ih.of_read hC hS hcap hread).1

end

theorem inv_start {k : Link σ κ} (hk : k.Good W cap) (hunread : k.unread = [])
    (hbetween : F.between k.ctx) : (start k : Feed σ κ ρ).Inv F cap := by
  have hs : W.decoder.Settles k.ctx [] [] k.ctx [] := ⟨.refl _ _, F.need_pos _ hbetween⟩
  refine ⟨hk, rfl, by simp [start], k.ctx, hbetween, ?_⟩
  simp only [start, hunread]
  exact hs

end Feed
end

/-! ## Clients that ignore what they did not ask for -/

namespace DubboClient
variable {χ : Type}

/-- Everything that happens to a client but its answers. -/
inductive Calls : DubboClient χ → DubboClient χ → Prop where
  | connect {client : DubboClient χ} (status : Int) : Calls client (client.onConnect status)
  | fetch {client : DubboClient χ} (request : DubboRequest) (context : χ) :
      Calls client (client.dubboFetch request .dubboCallback context)

/-- The registered callback is called and forgotten; without one nothing changes. -/
def tolerate (client : DubboClient χ) (resp : DubboResponse) : DubboClient χ :=
  (client.answer resp).getD client

end DubboClient

namespace PaClient
variable {γ χ : Type}

inductive Calls : PaClient γ χ → PaClient γ χ → Prop where
  | conn {client : PaClient γ χ} (status : Int) : Calls client (client.onConn status)
  | keyWrite {client : PaClient γ χ} (status : Int) : Calls client (client.keyWriteCb status)
  | fetch {client : PaClient γ χ} (req : ActRequest) (cb : γ) (context : χ) :
      Calls client (client.fetch req cb context)

def tolerate (client : PaClient γ χ) (resp : ActResponse) : PaClient γ χ :=
  (client.answer resp).getD client

def Awaits (client : PaClient γ χ) (rs : List ActResponse) : Prop :=
  (rs.map ActResponse.id).Nodup ∧
    ∀ r ∈ rs, (client.callbacks r.id).isSome ∧ (client.contexts r.id).isSome

theorem answer_unknown {client : PaClient γ χ} {resp : ActResponse}
    (h : ¬ client.Registered resp.id) : client.answer resp = none := by
  unfold answer
  split
  · rename_i hcb hcontext
    exact absurd ⟨by rw [hcb]; rfl, by rw [hcontext]; rfl⟩ h
  · rfl

theorem answer_known {client : PaClient γ χ} {resp : ActResponse}
    (h : client.Registered resp.id) : ∃ client', client.answer resp = some client' ∧
      ∀ id, client'.Registered id ↔ id ≠ resp.id ∧ client.Registered id := by
  obtain ⟨cb, hcb⟩ := Option.isSome_iff_exists.mp h.1
  obtain ⟨context, hcontext⟩ := Option.isSome_iff_exists.mp h.2
  refine ⟨_, answer_of_some hcb hcontext, ?_⟩
  intro id
  by_cases hid : id = resp.id
  · simp [Registered, hid]
  · simp [Registered, hid]

theorem foldlM_answer_iff (client : PaClient γ χ) (rs : List ActResponse) :
    (∃ client', rs.foldlM answer client = some client') ↔ client.Awaits rs :=
  foldlM_isSome_iff ActResponse.id (fun _ _ h => answer_unknown h) (fun _ _ h => answer_known h)
    client rs

end PaClient

/-- Where every answer succeeds, answering and tolerating are the same. -/
theorem foldlM_eq_foldl_getD {κ ω : Type} {hook : κ → ω → Option κ} {os : List ω} {k k' : κ}
    (h : os.foldlM hook k = some k') : os.foldl (fun k o => (hook k o).getD k) k = k' := by
  induction os generalizing k with
  | nil => exact Option.some.inj h
  | cons o os ih =>
    rw [List.foldlM_cons] at h
    obtain ⟨k₁, hk₁, hrest⟩ := Option.bind_eq_some_iff.mp h
    rw [List.foldl_cons, hk₁]
    exact ih hrest

theorem foldlM_eq_some_foldl_iff {κ ω : Type} {hook : κ → ω → Option κ} (os : List ω) (k : κ) :
    os.foldlM hook k = some (os.foldl (fun k o => (hook k o).getD k) k) ↔
      ∃ k', os.foldlM hook k = some k' := by
  constructor
  · intro h
    exact ⟨_, h⟩
  · intro h
    obtain ⟨k', hk'⟩ := h
    rw [foldlM_eq_foldl_getD hk', hk']

/-! ## Both clients -/

section
variable {γ χ ξ : Type}

def dubboFed (m : BufStore) (resp : DubboResponse) :
    Feed DubboReader (DubboClient χ) RawDubboFrame :=
  Feed.start (dubboLink m resp .create)

def paFed (m : BufStore) (resp : ActResponse) (key : ActReuseKey) :
    Feed PaReader (PaClient γ ξ) ActFrame :=
  Feed.start (paLink m resp (.create key))

def DubboReached (S : Nat) (m : BufStore) (resp : DubboResponse)
    (x : Feed DubboReader (DubboClient χ) RawDubboFrame) : Prop :=
  ReflTransGen (Feed.Step rawFraming (dubboReadCbs χ) S DubboClient.Calls) (dubboFed m resp) x

def PaReached (S : Nat) (m : BufStore) (resp : ActResponse) (key : ActReuseKey)
    (x : Feed PaReader (PaClient γ ξ) ActFrame) : Prop :=
  ReflTransGen (Feed.Step paFraming (paClientReadCbs γ ξ) S PaClient.Calls) (paFed m resp key) x

variable {S : Nat} (hS : 3 ≤ S) (hcap : toUInt32 S < 2147483648) {m : BufStore}
variable (hm : m.Wf (toUInt32 S))
include hS hcap hm

theorem dubbo_inv_of_reached {resp : DubboResponse}
    {x : Feed DubboReader (DubboClient χ) RawDubboFrame} (h : DubboReached S m resp x) :
    x.Inv rawFraming (toUInt32 S) := by
  have hstart : (dubboFed m resp : Feed DubboReader (DubboClient χ) _).Inv rawFraming
      (toUInt32 S) :=
    Feed.inv_start (dubboLink_good hm resp .create) rfl rfl
  exact Feed.inv_of_steps (dubboReadCbs_implements χ) hS hcap h hstart

theorem pa_inv_of_reached {resp : ActResponse} {key : ActReuseKey}
    {x : Feed PaReader (PaClient γ ξ) ActFrame} (h : PaReached S m resp key x) :
    x.Inv paFraming (toUInt32 S) := by
  have hstart : (paFed m resp key : Feed PaReader (PaClient γ ξ) _).Inv paFraming (toUInt32 S) :=
    Feed.inv_start (paLink_good hm resp (.create key)) rfl rfl
  exact Feed.inv_of_steps (paClientReadCbs_implements γ ξ) hS hcap h hstart

/-- In every reachable state the next read is that of a tolerant client exactly when the frames it
completes answer different calls that are all waiting. -/
theorem unexpected_iff :
    (∀ resp (x : Feed DubboReader (DubboClient χ) RawDubboFrame), DubboReached S m resp x →
      ∀ tie n, (∀ room, x.link.room (dubboReadCbs χ) S tie = some room →
        (x.wire.take n).length ≤ room) →
      let rs := (x.completed rawFraming n).map RawDubboFrame.response
      (∃ x', x.read (dubboReadCbs χ) S tie n = some x' ∧
        x'.link.env = rs.foldl DubboClient.tolerate x.link.env) ↔ x.link.env.Awaits rs) ∧
    ∀ resp key (x : Feed PaReader (PaClient γ ξ) ActFrame), PaReached S m resp key x →
      ∀ tie n, (∀ room, x.link.room (paClientReadCbs γ ξ) S tie = some room →
        (x.wire.take n).length ≤ room) →
      let rs := (x.completed paFraming n).map ActFrame.response
      (∃ x', x.read (paClientReadCbs γ ξ) S tie n = some x' ∧
        x'.link.env = rs.foldl PaClient.tolerate x.link.env) ↔ x.link.env.Awaits rs := by
  constructor
  · intro resp x hx tie n hroom rs
    have hinv := dubbo_inv_of_reached hS hcap hm hx
    rw [hinv.read_iff (dubboReadCbs_implements χ) hS hcap hroom, ← foldlM_answer_iff]
    exact foldlM_eq_some_foldl_iff rs x.link.env
  · intro resp key x hx tie n hroom rs
    have hinv := pa_inv_of_reached hS hcap hm hx
    rw [hinv.read_iff (paClientReadCbs_implements γ ξ) hS hcap hroom,
      ← PaClient.foldlM_answer_iff]
    exact foldlM_eq_some_foldl_iff rs x.link.env

end

/-- A heartbeat of a provider that nothing has been fetched from. -/
def heartbeat : RawDubboFrame := ⟨(0xe2, 0), [0, 0, 0, 0, 0, 0, 0, 1], [0x4e]⟩

theorem heartbeat_wf : heartbeat.Wf := ⟨rfl, by decide⟩

/-- A call, and a frame of the provider with its id. -/
theorem unexpected_iff_one_call :
    ∃ x x' : Feed DubboReader (DubboClient Unit) RawDubboFrame,
      DubboReached 65536 ⟨[], []⟩ ⟨0, 0, []⟩ x ∧ x.read (dubboReadCbs Unit) 65536 0 17 = some x' ∧
        x'.link.env = [heartbeat.response].foldl DubboClient.tolerate x.link.env := by
  let request := dubboRequestFromAct { id := 1, pLen := 0, parameter := [] }
  let x₀ : Feed DubboReader (DubboClient Unit) RawDubboFrame := dubboFed ⟨[], []⟩ ⟨0, 0, []⟩
  let x₁ : Feed DubboReader (DubboClient Unit) RawDubboFrame :=
    { x₀ with link := { x₀.link with
      env := x₀.link.env.dubboFetch request .dubboCallback () } }
  let x : Feed DubboReader (DubboClient Unit) RawDubboFrame :=
    x₁.reply RawDubboFrame.encode heartbeat
  have hx : DubboReached 65536 ⟨[], []⟩ ⟨0, 0, []⟩ x :=
    (ReflTransGen.refl.tail (.call (.fetch request ()))).tail (.send heartbeat_wf)
  have hroom : ∀ room, x.link.room (dubboReadCbs Unit) 65536 0 = some room →
      (x.wire.take 17).length ≤ room := by
    intro room hroom
    have hempty : x.link.room (dubboReadCbs Unit) 65536 0 = some (toUInt32 (65536 : Nat)) :=
      Link.room_empty (dubboReadCbs_implements Unit) (by decide) _ _ 0
    rw [hempty] at hroom
    obtain rfl := Option.some.inj hroom
    decide
  have hcompleted : x.completed rawFraming 17 = [heartbeat] := by decide
  have hid : heartbeat.response.id = request.id := by decide
  have hawaits : x.link.env.Awaits [heartbeat.response] := by
    refine ⟨List.nodup_singleton _, ?_⟩
    intro r hr
    rw [List.mem_singleton.mp hr, hid]
    exact ⟨by simp [x, x₁, DubboClient.dubboFetch, Exchange.reply],
      by simp [x, x₁, DubboClient.dubboFetch, Exchange.reply]⟩
  have h := (unexpected_iff (χ := Unit) (γ := Unit) (ξ := Unit) (by decide) (by decide)
    (BufStore.wf_empty _)).1 _ x hx 0 17 hroom
  rw [hcompleted] at h
  obtain ⟨x', hread, henv⟩ := h.mpr hawaits
  exact ⟨x, x', hx, hread, henv⟩

/-- The heartbeat, and an act response to a call that was never made. -/
theorem unexpected_crashes :
    (∃ x : Feed DubboReader (DubboClient Unit) RawDubboFrame,
      DubboReached 65536 ⟨[], []⟩ ⟨0, 0, []⟩ x ∧ x.completed rawFraming 17 = [heartbeat] ∧
        x.read (dubboReadCbs Unit) 65536 0 17 = none) ∧
    ∃ x : Feed PaReader (PaClient Unit Unit) ActFrame,
      PaReached 65536 ⟨[], []⟩ ⟨0, 0, []⟩ ⟨[], 0, [], 0, [], 0⟩ x ∧
        x.completed paFraming 8 = [⟨7, []⟩] ∧
        x.read (paClientReadCbs Unit Unit) 65536 0 8 = none := by
  constructor
  · let x₀ : Feed DubboReader (DubboClient Unit) RawDubboFrame := dubboFed ⟨[], []⟩ ⟨0, 0, []⟩
    have hx : DubboReached 65536 ⟨[], []⟩ ⟨0, 0, []⟩ (x₀.reply RawDubboFrame.encode heartbeat) :=
      ReflTransGen.refl.tail (.send heartbeat_wf)
    refine ⟨_, hx, by decide, ?_⟩
    apply Option.eq_none_iff_forall_not_mem.mpr
    intro x' hread
    have hinv := dubbo_inv_of_reached (by decide) (by decide) (BufStore.wf_empty _) hx
    have h := (hinv.of_read (dubboReadCbs_implements Unit) (by decide) (by decide) hread).2
    cases h
  · let x₀ : Feed PaReader (PaClient Unit Unit) ActFrame :=
      paFed ⟨[], []⟩ ⟨0, 0, []⟩ ⟨[], 0, [], 0, [], 0⟩
    have hwf : (⟨7, []⟩ : ActFrame).Wf := ⟨by decide, by decide⟩
    have hx : PaReached 65536 ⟨[], []⟩ ⟨0, 0, []⟩ ⟨[], 0, [], 0, [], 0⟩
        (x₀.reply ActFrame.encode ⟨7, []⟩) :=
      ReflTransGen.refl.tail (.send hwf)
    refine ⟨_, hx, by decide, ?_⟩
    apply Option.eq_none_iff_forall_not_mem.mpr
    intro x' hread
    have hinv := pa_inv_of_reached (by decide) (by decide) (BufStore.wf_empty _) hx
    have h := (hinv.of_read (paClientReadCbs_implements Unit Unit) (by decide) (by decide) hread).2
    cases h

end PyAgent
