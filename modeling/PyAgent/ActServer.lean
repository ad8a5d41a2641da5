import PyAgent.Closing
import PyAgent.Routing
import PyAgent.ProviderAgents
import PyAgent.ResponsePath
import Mathlib.Algebra.BigOperators.Group.List.Basic

/-!
# A whole provider agent

All connections of pa.cc take their buffers from the pool of the server and hand
their requests to one Dubbo client. A read on one of them leaves the others alone,
and what the Dubbo client has written or queued is what has been fetched, in order.
-/

namespace PyAgent
set_option autoImplicit false

open Streaming

/-! ## One pool -/

/-- Buffers are in order, and no two connections hold the same one. -/
structure Pooled {ι : Type} (cap : Nat) (m : BufStore) (held : ι → Option Nat) : Prop where
  wf : m.Wf cap
  holds : ∀ i p, held i = some p → m.Held p
  alone : ∀ i i' p, held i = some p → held i' = some p → i = i'

section
variable {σ κ : Type} {C : ReadCbs σ κ} {S : Nat}

/-- A completed read gives its connection a buffer that nobody else has, and does not touch the
others. -/
theorem Link.complete_pool {remainOf : ByteBuf → Nat} (halloc : C.alloc = allocCb remainOf)
    (hS : 3 ≤ S) {k k' : Link σ κ} (hk : k.Stored (toUInt32 S)) {tie : Nat} {chunk : Bytes}
    (h : k.complete C S tie chunk = some k') :
    k.store.Keeps k'.store k.held ∧
      ∀ q, k.store.Held q → k.held ≠ some q → k'.held ≠ some q := by
  obtain ⟨m, p, l, l', hopened, _, rfl⟩ := Link.exists_of_complete C S h
  obtain ⟨m₀, p₀, b, hcall, ha, _⟩ : ∃ m p b, allocCb remainOf S tie k.store k.held =
      some (m, p, offer p b) ∧ Allocated (toUInt32 S) k.store k.held m p b ∧ _ :=
    allocCb_spec hS tie hk.wf hk.holds
  simp only [Link.opened, halloc, hcall] at hopened
  split at hopened
  · obtain ⟨b', _, heq⟩ := Option.map_eq_some_iff.mp hopened
    obtain ⟨rfl, rfl, rfl⟩ := heq
    constructor
    · intro q hq hne
      have hqp := ha.fresh q hq hne
      obtain ⟨hheap, hheld⟩ := ha.keeps q hq hne
      simp only [Link.closed, offer, BufStore.modifyAt_modifyAt]
      refine ⟨?_, (BufStore.held_modifyAt_iff _ _ _ _).mpr hheld⟩
      rw [BufStore.getElem?_modifyAt, if_neg (Ne.symm hqp)]
      exact hheap
    · intro q hq hne heq
      exact ha.fresh q hq hne (Option.some.inj heq).symm
  · cases hopened

theorem Pooled.complete {ι : Type} [DecidableEq ι] {held : ι → Option Nat} {m : BufStore}
    (hp : Pooled (toUInt32 S) m held) {remainOf : ByteBuf → Nat}
    (halloc : C.alloc = allocCb remainOf) (hS : 3 ≤ S) {i : ι} {ctx : σ} {env : κ} {tie : Nat}
    {chunk : Bytes} {k' : Link σ κ}
    (h : (⟨m, held i, ctx, env⟩ : Link σ κ).complete C S tie chunk = some k')
    (hk' : k'.Stored (toUInt32 S)) :
    Pooled (toUInt32 S) k'.store (Function.update held i k'.held) ∧
      ∀ j, j ≠ i → unreadOf k'.store (held j) = unreadOf m (held j) := by
  obtain ⟨hkeeps, hfresh⟩ := Link.complete_pool halloc hS
    (k := ⟨m, held i, ctx, env⟩) ⟨hp.wf, fun p hi => hp.holds i p hi⟩ h
  have hother : ∀ j q, j ≠ i → held j = some q →
      k'.store.heap[q]? = m.heap[q]? ∧ k'.store.Held q ∧ k'.held ≠ some q := by
    intro j q hj hq
    have hne : held i ≠ some q := fun hi => hj (hp.alone j i q hq hi)
    obtain ⟨hheap, hheld⟩ := hkeeps q (hp.holds j q hq) hne
    exact ⟨hheap, hheld, hfresh q (hp.holds j q hq) hne⟩
  refine ⟨⟨hk'.wf, ?_, ?_⟩, ?_⟩
  · intro j q hq
    by_cases hj : j = i
    · subst hj
      rw [Function.update_self] at hq
      exact hk'.holds q hq
    · rw [Function.update_of_ne hj] at hq
      exact (hother j q hj hq).2.1
  · intro j j' q hq hq'
    by_cases hj : j = i <;> by_cases hj' : j' = i
    · rw [hj, hj']
    · subst hj
      rw [Function.update_self] at hq
      rw [Function.update_of_ne hj'] at hq'
      exact absurd hq (hother j' q hj' hq').2.2
    · subst hj'
      rw [Function.update_self] at hq'
      rw [Function.update_of_ne hj] at hq
      exact absurd hq' (hother j q hj hq).2.2
    · rw [Function.update_of_ne hj] at hq
      rw [Function.update_of_ne hj'] at hq'
      exact hp.alone j j' q hq hq'
  · intro j hj
    cases hq : held j with
    | none => rfl
    | some q => simp only [unreadOf, (hother j q hj hq).1]

end

/-! ## One Dubbo client -/

/-- What has been written and what is queued are all the requests, and a client that is connected
has nothing queued. -/
structure DubboSent {χ : Type} (requests : List DubboRequest) (client : DubboClient χ) : Prop where
  split : ∃ sent, requests = sent ++ client.queue ∧
    client.socket = (sent.map dubboRequestEncode).flatten
  drained : client.connected = true → client.queue = []

namespace DubboSent
variable {χ : Type} {requests : List DubboRequest} {client : DubboClient χ}

theorem handleQueue {client : DubboClient χ} (h : ∃ sent, requests = sent ++ client.queue ∧
    client.socket = (sent.map dubboRequestEncode).flatten) :
    DubboSent requests client.handleQueue := by
  obtain ⟨sent, hsplit, hsocket⟩ := h
  unfold DubboClient.handleQueue
  split
  · refine ⟨⟨requests, by simp, ?_⟩, fun _ => rfl⟩
    rw [hsocket, hsplit, List.map_append, List.flatten_append]
  · rename_i hoff
    exact ⟨⟨sent, hsplit, hsocket⟩, fun hon => absurd hon hoff⟩

theorem onConnect (h : DubboSent requests client) (status : Int) :
    DubboSent requests (client.onConnect status) := by
  unfold DubboClient.onConnect
  split
  · exact h
  · exact handleQueue h.split

theorem dubboFetch (h : DubboSent requests client) (request : DubboRequest) (cb : DubboCallback)
    (context : χ) : DubboSent (requests ++ [request]) (client.dubboFetch request cb context) := by
  obtain ⟨sent, hsplit, hsocket⟩ := h.split
  apply handleQueue
  exact ⟨sent, by simp [hsplit], hsocket⟩

theorem answer (h : DubboSent requests client) {resp : DubboResponse} {client' : DubboClient χ}
    (hanswer : client.answer resp = some client') : DubboSent requests client' := by
  unfold DubboClient.answer at hanswer
  split at hanswer
  · obtain rfl := Option.some.inj hanswer
    exact ⟨h.split, h.drained⟩
  · cases hanswer

theorem socket_eq (h : DubboSent requests client) (hconnected : client.connected = true) :
    client.socket = (requests.map dubboRequestEncode).flatten := by
  obtain ⟨sent, hsplit, hsocket⟩ := h.split
  rw [h.drained hconnected, List.append_nil] at hsplit
  rw [hsocket, hsplit]

end DubboSent

/-- What `dubbo_fetch` makes of requests that arrive one behind the other. -/
def DubboClient.fetchAll {χ : Type} (client : DubboClient χ) (calls : List (Routing.Call χ)) :
    DubboClient χ :=
  calls.foldl (fun client call => client.dubboFetch call.request .dubboCallback call.context) client

@[simp] theorem DubboClient.channels_fetchAll {χ : Type} (client : DubboClient χ)
    (calls : List (Routing.Call χ)) : (client.fetchAll calls).channels = client.channels := by
  induction calls generalizing client with
  | nil => rfl
  | cons call calls ih =>
    exact (ih _).trans (DubboClient.handleQueue_channels _)

theorem DubboSent.fetchAll {χ : Type} {requests : List DubboRequest} {client : DubboClient χ}
    (h : DubboSent requests client) (calls : List (Routing.Call χ)) :
    DubboSent (requests ++ calls.map Routing.Call.request) (client.fetchAll calls) := by
  induction calls generalizing requests client with
  | nil => simpa [DubboClient.fetchAll] using h
  | cons call calls ih =>
    have h' := ih (h.dubboFetch call.request .dubboCallback call.context)
    rw [List.append_assoc] at h'
    exact h'

/-- Requests with ids that are different and that nobody waits for. -/
theorem Routing.Holds.fetchAll {χ : Type} {issued : List (Routing.Call χ)} {served : List Nat}
    {delivered : List Routing.Reply} {client : DubboClient χ}
    (hk : Routing.Holds ⟨issued, served⟩ delivered client) {calls : List (Routing.Call χ)}
    (hids : ∀ call ∈ calls, 0 ≤ call.id ∧ call.id < 2147483648)
    (hdistinct : (calls.map Routing.Call.id).Nodup)
    (hfresh : ∀ call ∈ calls, Ledger.Fresh Routing.Call.id ⟨issued, served⟩ call) :
    Routing.Holds ⟨issued ++ calls, served⟩ delivered (client.fetchAll calls) := by
  induction calls generalizing issued client with
  | nil => simpa [DubboClient.fetchAll] using hk
  | cons call calls ih =>
    rw [List.map_cons, List.nodup_cons] at hdistinct
    have hnext := hk.fetch (hids call List.mem_cons_self) (hfresh call List.mem_cons_self)
    have hall := ih hnext (fun c hc => hids c (List.mem_cons_of_mem _ hc)) hdistinct.2 (by
      intro c hc j e hopen
      rcases (Ledger.open_issue_iff hk.wf).mp hopen with hold | ⟨_, rfl⟩
      · exact hfresh c (List.mem_cons_of_mem _ hc) j e hold
      · intro heq
        apply hdistinct.1
        rw [heq]
        exact List.mem_map_of_mem hc)
    rw [List.append_assoc] at hall
    exact hall

theorem foldlM_dubboFetch {χ : Type} (c : χ) (rs : List DubboRequest) (e : Closing.PaEnv χ) :
    rs.foldlM (Closing.PaEnv.dubboFetch c) e =
      some { e with dubboClient := e.dubboClient.fetchAll (rs.map fun r => ⟨c, r⟩) } := by
  induction rs generalizing e with
  | nil => rfl
  | cons r rs ih =>
    rw [List.foldlM_cons, Closing.PaEnv.dubboFetch, Option.bind_eq_bind, Option.bind_some, ih]
    rfl

/-! ## The requests on the wire -/

/-- The frames a provider finds on the stream, each as the eight bytes of its id and its body: the
last four bytes of a header count the body. -/
def requestFramesIn : Nat → Bytes → List (Bytes × Bytes)
  | 0, _ => []
  | n + 1, bs =>
    let len := (bytes2int (bs.drop 12)).toNat
    if 16 + len ≤ bs.length then
      ((bs.drop 4).take 8, (bs.drop 16).take len) :: requestFramesIn n (bs.drop (16 + len))
    else []

def requestFrames (bs : Bytes) : List (Bytes × Bytes) := requestFramesIn bs.length bs

theorem ActReuseKey.Wf.sized {key : ActReuseKey} (hk : key.Wf) : key.Sized := by
  have hi := hk.interfaceLen
  have hm := hk.methodLen
  have hp := hk.ptsLen
  have := hk.totalLen
  exact ⟨hi, hm, hp, by omega, by omega, by omega⟩

theorem ActRequest.Wf.sized {request : ActRequest} (hr : request.Wf) : request.Sized := by
  have hlen := hr.pLen
  have := hr.totalLen
  exact ⟨hr.id, hlen, by omega⟩

theorem requestFramesIn_encode {request : DubboRequest} (hr : request.Sized)
    (htotal : dubboTotalLen request < 2147483648) (n : Nat) (rest : Bytes) :
    requestFramesIn (n + 1) (dubboRequestEncode request ++ rest) =
      (writeLL request.id, dubboBody request) :: requestFramesIn n rest := by
  have hlen := hr.body_length
  let header : Bytes := [0xda, 0xbb, 0xc6, 0x00] ++ writeLL request.id
  have hencode : dubboRequestEncode request ++ rest =
      header ++ (writeInt (dubboTotalLen request - 16) ++ (dubboBody request ++ rest)) := by
    simp only [header, dubboRequestEncode_eq, List.append_assoc]
  have hheader : header.length = 12 := rfl
  have hfield : (bytes2int ((dubboRequestEncode request ++ rest).drop 12)).toNat =
      (dubboBody request).length := by
    rw [hencode, List.drop_left' hheader, bytes2int_writeInt_append ⟨by omega, by omega⟩]
    omega
  have htail : (dubboRequestEncode request ++ rest).drop 16 = dubboBody request ++ rest := by
    rw [hencode, ← List.drop_drop (i := 4) (j := 12), List.drop_left' hheader]
    exact List.drop_left' (writeInt_length _)
  have hfits : 16 + (dubboBody request).length ≤ (dubboRequestEncode request ++ rest).length := by
    rw [List.length_append, dubboRequestEncode_length]
    omega
  simp only [requestFramesIn]
  rw [hfield, if_pos hfits, htail, List.take_left, ← List.drop_drop, htail, List.drop_left]
  rfl

/-- What the Dubbo client writes is read as the requests it was given. -/
theorem requestFrames_encode {requests : List DubboRequest}
    (hall : ∀ r ∈ requests, r.Sized ∧ dubboTotalLen r < 2147483648) :
    requestFrames (requests.map dubboRequestEncode).flatten =
      requests.map fun r => (writeLL r.id, dubboBody r) := by
  have hfuel : ∀ n, requests.length ≤ n →
      requestFramesIn n (requests.map dubboRequestEncode).flatten =
        requests.map fun r => (writeLL r.id, dubboBody r) := by
    induction requests with
    | nil =>
      intro n _
      cases n <;> simp [requestFramesIn]
    | cons r rs ih =>
      intro n hn
      obtain ⟨n, rfl⟩ : ∃ k, n = k + 1 := ⟨n - 1, by rw [List.length_cons] at hn; omega⟩
      obtain ⟨hsized, htotal⟩ := hall r List.mem_cons_self
      rw [List.map_cons, List.flatten_cons, requestFramesIn_encode hsized htotal, List.map_cons,
        ih (fun r' hr' => hall r' (List.mem_cons_of_mem _ hr')) n (Nat.le_of_succ_le_succ hn)]
  apply hfuel
  rw [List.length_flatten, List.map_map, ← List.length_map (List.length ∘ dubboRequestEncode)]
  apply List.length_le_sum_of_one_le
  intro n hn
  obtain ⟨r, _, rfl⟩ := List.mem_map.mp hn
  simp only [Function.comp_apply, dubboRequestEncode_length]
  omega

end PyAgent
