import PyAgent.ConsumerAgent
import PyAgent.HttpResponse
import PyAgent.Receive
import PyAgent.Streaming.Owning
import PyAgent.XMalloc
import Mathlib.Algebra.Order.Group.Multiset
import Mathlib.Algebra.BigOperators.Group.List.Basic
import Mathlib.Tactic.Abel

/-!
# Blocks of the consumer agent

Every `x_malloc` and `x_free` of ca.cc and pa_client.cc, in their order. A request
is allocated by `_h_on_body` and freed once `_pa_handle_queue` has encoded it, what
is written is freed by the callback of the write, and what belongs to a connection
stays. The result of a response is handed to `act_done_callback`, which copies a
line of it and forgets it.
-/

namespace PyAgent.Blocks
set_option autoImplicit false

open Streaming

/-! ## The memory -/

/-- The heap and the number of calls of `x_malloc` so far. -/
structure Mem where
  heap : XMem.Heap
  calls : Nat

abbrev Alloc := StateT Mem Option

/-- The sizes of the structures. -/
structure Sizes where
  uvTcp : Nat
  uvBuf : Nat
  uvWrite : Nat
  httpParser : Nat
  actReuseKey : Nat
  actRequest : Nat
  paWriteContext : Nat
  keyWriteContext : Nat

/-- `sys n` is where `malloc` puts a new block if the `n`-th call of `x_malloc` asks for one. -/
def xMalloc (sys : Nat → Nat) (size : Int) : Alloc Nat := fun m =>
  (XMem.step m.heap (.xMalloc (toSizeT size) (sys m.calls))).bind fun h =>
    h.handed.head?.map fun p => (p, ⟨h, m.calls + 1⟩)

def xFree (p : Nat) : Alloc PUnit := fun m =>
  let r := PyAgent.xFree m.heap.pool p
  some (⟨⟩, { m with heap := {
    pool := r.1
    capacity := if r.2 then Function.update m.heap.capacity p none else m.heap.capacity
    handed := m.heap.handed.erase p } })

/-! ## The blocks of each structure -/

structure HttpConn where
  client : Nat
  parser : Nat

structure ReuseKey where
  reuseKey : Nat
  interface : Nat
  method : Nat
  pts : Nat

structure Request where
  request : Nat
  parameter : Nat
  act : ActRequest

/-- `_pa_write_context` and what it leads to. -/
structure PaWrite where
  bufs : Nat
  bases : List Nat
  req : Nat
  ctx : Nat
  deriving DecidableEq

/-- `key_write_context` and what it leads to. -/
structure KeyWrite where
  base : Nat
  buf : Nat
  req : Nat
  ctx : Nat
  deriving DecidableEq

structure DoneWrite where
  base : Nat
  buf : Nat
  req : Nat
  deriving DecidableEq

/-- A `pa_client`; `callbacks` has the ids that are in its maps. The last three fields count its
calls of `pa_client_fetch` and the responses read, and say whether reading has been started. -/
structure Client where
  key : ActReuseKey
  keyBlocks : ReuseKey
  connected : Bool
  que : List Request
  callbacks : Int → Bool
  keyWrite : Option KeyWrite
  writes : List PaWrite
  fetched : Nat
  answered : Nat
  opened : Bool

section
variable (sys : Nat → Nat) (sz : Sizes)

/-! ## pa_client.cc -/

def paActRequestEncode (r : Request) : Alloc Nat := xMalloc sys (4 + 4 + r.act.pLen + 1)

def freeActRequest (r : Request) : Alloc PUnit := do
  xFree r.parameter
  xFree r.request

def drain : List Request → Alloc (List Nat)
  | [] => pure []
  | r :: rs => do
    let base ← paActRequestEncode sys r
    freeActRequest r
    let bases ← drain rs
    pure (base :: bases)

def paHandleQueue (c : Client) : Alloc Client :=
  if c.connected then do
    let bufs ← xMalloc sys (sz.uvBuf * c.que.length + 1)
    let bases ← drain sys c.que
    if bases.length ≤ 0 then do
      xFree bufs
      pure { c with que := [] }
    else do
      let req ← xMalloc sys sz.uvWrite
      let ctx ← xMalloc sys sz.paWriteContext
      pure { c with que := [], writes := c.writes ++ [⟨bufs, bases, req, ctx⟩] }
  else pure c

def freeAll : List Nat → Alloc PUnit
  | [] => pure ⟨⟩
  | p :: ps => do
    xFree p
    freeAll ps

def paWriteCb (w : PaWrite) (status : Int) : Alloc PUnit :=
  if status ≠ 0 then pure ⟨⟩
  else do
    freeAll w.bases
    xFree w.bufs
    xFree w.ctx
    xFree w.req

def paOnConn (c : Client) (status : Int) : Alloc Client :=
  if status < 0 then pure c
  else do
    let base ← xMalloc sys
      (4 + c.key.interfaceLen + 4 + c.key.methodLen + 4 + c.key.ptsLen + 2 + 1)
    let buf ← xMalloc sys sz.uvBuf
    let req ← xMalloc sys sz.uvWrite
    let ctx ← xMalloc sys sz.keyWriteContext
    paHandleQueue sys sz { c with keyWrite := some ⟨base, buf, req, ctx⟩, opened := true }

def paKeyWriteCb (c : Client) (w : KeyWrite) (status : Int) : Alloc Client :=
  if status ≠ 0 then pure c
  else do
    let c ← paHandleQueue sys sz { c with connected := true, keyWrite := none }
    xFree w.base
    xFree w.buf
    xFree w.ctx
    xFree w.req
    pure c

def paClientFetch (c : Client) (r : Request) : Alloc Client :=
  paHandleQueue sys sz { c with
    que := c.que ++ [r]
    callbacks := Function.update c.callbacks r.act.id true
    fetched := c.fetched + 1 }

/-! ## ca.cc -/

def caOnConn : Alloc HttpConn := do
  let client ← xMalloc sys sz.uvTcp
  let parser ← xMalloc sys sz.httpParser
  pure ⟨client, parser⟩

def actDoneWriteCb (w : DoneWrite) (_status : Int) : Alloc PUnit := do
  xFree w.base
  xFree w.buf
  xFree w.req

def contentLen (resp : ActResponse) : Int :=
  let (as, ae) := newlineScan (resp.result.take resp.dataLen.toNat) 0 0 0
  ae - as

def actDoneCallback (resp : ActResponse) : Alloc DoneWrite := do
  let req ← xMalloc sys sz.uvWrite
  let buf ← xMalloc sys sz.uvBuf
  let base ← xMalloc sys (if contentLen resp ≤ 0 then 256 + 1 else 256 + contentLen resp + 1)
  pure ⟨base, buf, req⟩

/-- What `_pa_read_cb` does with a response: the block of its result, and the write of the
callback. -/
def paReadCb (resp : ActResponse) : Alloc (Nat × DoneWrite) := do
  let result ← xMalloc sys (resp.dataLen + 1)
  let write ← actDoneCallback sys sz resp
  pure (result, write)

/-- `_h_on_body` creates a client for a key whose values have these lengths in the body. -/
def newClient (key : ActReuseKey) (len : FormField → Int) : Alloc Client := do
  let reuseKey ← xMalloc sys (sz.actReuseKey + 1)
  let interface ← xMalloc sys (len .interface + 1)
  let method ← xMalloc sys (len .method + 1)
  let pts ← xMalloc sys (len .pts + 1)
  pure ⟨key, ⟨reuseKey, interface, method, pts⟩, false, [], fun _ => false, none, [], 0, 0, false⟩

def newRequest (act : ActRequest) : Alloc Request := do
  let request ← xMalloc sys (sz.actRequest + 1)
  let parameter ← xMalloc sys (act.pLen + 1)
  pure ⟨request, parameter, act⟩

end

/-! ## Runs -/

structure Agent where
  mem : Mem
  server : CaServer
  conns : List HttpConn
  clients : List Client
  doneWrites : List DoneWrite
  results : List Nat

/-- All writes succeed. Closing a connection frees nothing and is left out. -/
inductive Event where
  | conn
  | body (eidx : Fin 10) (id : Int) (data : Bytes)
  | paConn (p : Nat) (status : Int)
  | keyWritten (p : Nat)
  | written (p i : Nat)
  | response (p : Nat) (resp : ActResponse)
  | doneWritten (i : Nat)

def Event.isResponse : Event → Bool
  | .response _ _ => true
  | _ => false

namespace Agent
variable (sys : Nat → Nat) (sz : Sizes)

def start (func : Bytes → Nat → Nat) : Agent :=
  ⟨⟨XMem.start, 0⟩, CaServer.start func, [], [], [], []⟩

def onClient (x : Agent) (p : Nat) (f : Client → Alloc Client) : Option Agent :=
  x.clients[p]?.bind fun c => (f c x.mem).map fun (c', m) =>
    { x with mem := m, clients := x.clients.set p c' }

/-- The clients after `_h_on_body` has looked one up. -/
def clientsFor (x : Agent) (server : CaServer) (len : FormField → Int) : Alloc (List Client) :=
  match server.created[x.clients.length]? with
  | none => pure x.clients
  | some (_, key) => do
    let c ← newClient sys sz key len
    pure (x.clients ++ [c])

def onBody (x : Agent) (eidx : Fin 10) (id : Int) (data : Bytes) : Option Agent :=
  (scan x.server.hashes data).bind fun spans =>
    (x.server.hOnBody eidx id data).bind fun server =>
      server.fetched.getLast?.bind fun (p, act) =>
        let len v := (spans v).elim 0 fun span => (span.2 : Int) - span.1
        (x.clientsFor sys sz server len x.mem).bind fun (clients, m) =>
          (newRequest sys sz act m).bind fun (r, m) =>
            Agent.onClient { x with mem := m, server := server, clients := clients } p
              fun c => paClientFetch sys sz c r

/-- `none` where the event cannot happen or where the code does not come back from it. -/
def step (x : Agent) : Event → Option Agent
  | .conn => (caOnConn sys sz x.mem).map fun (b, m) => { x with mem := m, conns := x.conns ++ [b] }
  | .body eidx id data => x.onBody sys sz eidx id data
  | .paConn p status => x.onClient p fun c =>
      if c.opened then fun _ => none else paOnConn sys sz c status
  | .keyWritten p => x.onClient p fun c =>
      match c.keyWrite with
      | none => fun _ => none
      | some w => paKeyWriteCb sys sz c w 0
  | .written p i => x.onClient p fun c =>
      match c.writes[i]? with
      | none => fun _ => none
      | some w => do
        paWriteCb w 0
        pure { c with writes := c.writes.eraseIdx i }
  | .response p resp =>
    x.clients[p]?.bind fun c =>
      if c.opened ∧ c.callbacks resp.id ∧ resp.result.length = resp.dataLen then
        (paReadCb sys sz resp x.mem).map fun (r, m) => { x with
          mem := m
          clients := x.clients.set p { c with
            callbacks := Function.update c.callbacks resp.id false
            answered := c.answered + 1 }
          doneWrites := x.doneWrites ++ [r.2]
          results := x.results ++ [r.1] }
      else none
  | .doneWritten i =>
    x.doneWrites[i]?.bind fun w =>
      (actDoneWriteCb w 0 x.mem).map fun r =>
        { x with mem := r.2, doneWrites := x.doneWrites.eraseIdx i }

def run (func : Bytes → Nat → Nat) (es : List Event) : Option Agent :=
  es.foldlM (step sys sz) (start func)

/-- Every request has been answered and every write has completed. -/
structure Quiet (x : Agent) : Prop where
  answered : ∀ c ∈ x.clients, c.answered = c.fetched
  keyWrites : ∀ c ∈ x.clients, c.keyWrite = none
  writes : ∀ c ∈ x.clients, c.writes = []
  doneWrites : x.doneWrites = []

instance (x : Agent) : Decidable x.Quiet :=
  decidable_of_iff ((∀ c ∈ x.clients, c.answered = c.fetched) ∧
    (∀ c ∈ x.clients, c.keyWrite = none) ∧ (∀ c ∈ x.clients, c.writes = []) ∧ x.doneWrites = [])
    ⟨fun ⟨ha, hk, hw, hd⟩ => ⟨ha, hk, hw, hd⟩, fun ⟨ha, hk, hw, hd⟩ => ⟨ha, hk, hw, hd⟩⟩

/-- The blocks that belong to connections. -/
def perConnection (x : Agent) : Multiset Nat :=
  (x.conns.map fun b => {b.client} + {b.parser}).sum + (x.clients.map fun c =>
    {c.keyBlocks.reuseKey} + {c.keyBlocks.interface} + {c.keyBlocks.method} + {c.keyBlocks.pts}).sum

/-- The blocks of `ptr_size_map` that are not in `ptr_pool` are those of the connections. -/
def Balanced (x : Agent) : Prop :=
  ∀ p, x.mem.heap.pool.ptrSizeMap p ≠ none ∧ p ∉ x.mem.heap.pool.ptrPool.map Prod.snd ↔
    p ∈ x.perConnection

end Agent

/-! ## Owning blocks -/

/-- The blocks handed out are those of `s`, and every other block that the size map knows is in the
pool. -/
structure Mem.Owns (m : Mem) (s : Multiset Nat) : Prop where
  inv : XMem.Inv m.heap
  known : ∀ p, m.heap.pool.ptrSizeMap p ≠ none →
    p ∈ m.heap.pool.ptrPool.map Prod.snd ∨ p ∈ m.heap.handed
  handed : (m.heap.handed : Multiset Nat) = s

theorem xMalloc_known {pool : XMemPool} {n sys p : Nat}
    (h : (PyAgent.xMalloc pool n sys).pool.ptrSizeMap p ≠ none)
    (hp : p ≠ (PyAgent.xMalloc pool n sys).res) :
    pool.ptrSizeMap p ≠ none ∧ (p ∈ pool.ptrPool.map Prod.snd →
      p ∈ (PyAgent.xMalloc pool n sys).pool.ptrPool.map Prod.snd) := by
  have hmiss : (xMallocMiss pool n sys).pool.ptrSizeMap p ≠ none →
      p ≠ (xMallocMiss pool n sys).res → pool.ptrSizeMap p ≠ none ∧
        (p ∈ pool.ptrPool.map Prod.snd →
          p ∈ (xMallocMiss pool n sys).pool.ptrPool.map Prod.snd) := by
    intro h hp
    simp only [xMallocMiss, ne_eq] at h hp ⊢
    rw [Function.update_of_ne hp] at h
    exact ⟨h, id⟩
  unfold PyAgent.xMalloc at h hp ⊢
  split at h
  · rename_i e hfind
    split at h
    · rename_i hfit
      simp only [hfind, if_pos hfit] at hp ⊢
      refine ⟨h, ?_⟩
      intro hmem
      obtain ⟨d, hd, rfl⟩ := List.mem_map.mp hmem
      apply List.mem_map_of_mem
      apply (List.mem_erase_of_ne _).mpr hd
      rintro rfl
      exact hp rfl
    · rename_i hfit
      simp only [hfind, if_neg hfit] at hp ⊢
      exact hmiss h hp
  · rename_i hfind
    simp only [hfind] at hp ⊢
    exact hmiss h hp

theorem xMalloc_owning (sys : Nat → Nat) (size : Int) :
    Owning Mem.Owns (xMalloc sys size) 0 fun p => {p} := by
  intro r m p m' hm hrun
  obtain ⟨h, hstep, hrest⟩ := Option.bind_eq_some_iff.mp hrun
  obtain ⟨q, hq, heq⟩ := Option.map_eq_some_iff.mp hrest
  obtain ⟨rfl, rfl⟩ := Prod.mk.inj heq
  simp only [XMem.step] at hstep
  split at hstep
  · rename_i hguard
    obtain rfl := Option.some.inj hstep
    obtain rfl := Option.some.inj hq
    refine ⟨(hm.inv.xMalloc_spec hguard.1 hguard.2).1, ?_, ?_⟩
    · intro p hp
      by_cases hres : p = (PyAgent.xMalloc m.heap.pool (toSizeT size) (sys m.calls)).res
      · rw [hres]
        exact Or.inr List.mem_cons_self
      · obtain ⟨hold, hkeep⟩ := xMalloc_known hp hres
        rcases hm.known p hold with hpool | hhanded
        · exact Or.inl (hkeep hpool)
        · exact Or.inr (List.mem_cons_of_mem _ hhanded)
    · have hhanded := hm.handed
      rw [zero_add] at hhanded
      rw [← Multiset.cons_coe, hhanded]
      rfl
  · cases hstep

theorem xFree_owning (p : Nat) : Owning Mem.Owns (xFree p) {p} fun _ => 0 := by
  intro r m a m' hm hrun
  obtain ⟨_, rfl⟩ := Prod.mk.inj (Option.some.inj hrun)
  have hmem : p ∈ m.heap.handed := by
    rw [← Multiset.mem_coe, hm.handed]
    exact Multiset.mem_add.mpr (Or.inl (Multiset.mem_singleton_self p))
  obtain ⟨c, hc, _⟩ := hm.inv.out p hmem
  refine ⟨hm.inv.xFree (p := p) (if_pos hmem), ?_, ?_⟩
  · intro q hq
    simp only [PyAgent.xFree, hc] at hq ⊢
    rcases hm.known q hq with hpool | hhanded
    · left
      obtain ⟨d, hd, rfl⟩ := List.mem_map.mp hpool
      exact List.mem_map_of_mem (mem_multimapInsert.mpr (Or.inr hd))
    · by_cases hqp : q = p
      · subst hqp
        exact Or.inl (List.mem_map_of_mem (mem_multimapInsert.mpr (Or.inl rfl)))
      · exact Or.inr ((List.mem_erase_of_ne hqp).mpr hhanded)
  · have hhanded := hm.handed
    rw [← Multiset.coe_erase, hhanded, zero_add, Multiset.singleton_add,
      Multiset.erase_cons_head]

/-! ## What each function owns -/

def HttpConn.blocks (b : HttpConn) : Multiset Nat := {b.client} + {b.parser}

def ReuseKey.blocks (b : ReuseKey) : Multiset Nat :=
  {b.reuseKey} + {b.interface} + {b.method} + {b.pts}

def Request.blocks (r : Request) : Multiset Nat := {r.request} + {r.parameter}

def PaWrite.blocks (w : PaWrite) : Multiset Nat := {w.bufs} + ↑w.bases + {w.req} + {w.ctx}

def KeyWrite.blocks (w : KeyWrite) : Multiset Nat := {w.base} + {w.buf} + {w.req} + {w.ctx}

def DoneWrite.blocks (w : DoneWrite) : Multiset Nat := {w.base} + {w.buf} + {w.req}

/-- The blocks of what is in flight on a connection. -/
def Client.pending (c : Client) : Multiset Nat :=
  (c.que.map Request.blocks).sum + c.keyWrite.elim 0 KeyWrite.blocks +
    (c.writes.map PaWrite.blocks).sum

def Client.blocks (c : Client) : Multiset Nat := c.keyBlocks.blocks + c.pending

section
variable {sys : Nat → Nat} {sz : Sizes}

theorem drain_owning (rs : List Request) :
    Owning Mem.Owns (drain sys rs) (rs.map Request.blocks).sum fun bases => ↑bases := by
  induction rs with
  | nil => exact .pure rfl
  | cons r rs ih =>
    rw [List.map_cons, List.sum_cons, Request.blocks]
    apply (xMalloc_owning sys _).gain
    intro base
    -- freeing the request makes room for the buffers of the ones behind it
    have hfree : Owning Mem.Owns (freeActRequest r) ({r.request} + {r.parameter}) fun _ => 0 := by
      apply (xFree_owning r.parameter).lose (add_comm _ _)
      exact xFree_owning r.request
    apply hfree.lose (q := {base} + (rs.map Request.blocks).sum) (by abel)
    apply ih.bind (add_comm _ _)
    intro bases
    apply Owning.pure
    rw [← Multiset.cons_coe, ← Multiset.singleton_add]
    exact add_comm _ _

theorem paHandleQueue_owning (c : Client) :
    Owning Mem.Owns (paHandleQueue sys sz c) c.blocks Client.blocks := by
  unfold paHandleQueue
  split
  · apply (xMalloc_owning sys _).gain
    intro bufs
    apply (drain_owning c.que).bind (q := {bufs} + c.keyBlocks.blocks +
      c.keyWrite.elim 0 KeyWrite.blocks + (c.writes.map PaWrite.blocks).sum)
    · unfold Client.blocks Client.pending
      abel
    · intro bases
      split
      · rename_i hnone
        obtain rfl : bases = [] := List.length_eq_zero_iff.mp (Nat.le_zero.mp hnone)
        apply (xFree_owning bufs).lose (q := c.keyBlocks.blocks +
          c.keyWrite.elim 0 KeyWrite.blocks + (c.writes.map PaWrite.blocks).sum)
        · simp only [Multiset.coe_nil]
          abel
        · apply Owning.pure
          simp only [Client.blocks, Client.pending, List.map_nil, List.sum_nil]
          abel
      · apply (xMalloc_owning sys _).gain
        intro req
        apply (xMalloc_owning sys _).gain
        intro ctx
        apply Owning.pure
        simp only [Client.blocks, Client.pending, List.map_nil, List.sum_nil, List.map_append,
          List.sum_append, List.map_cons, List.sum_cons, PaWrite.blocks]
        abel
  · exact .pure rfl

theorem freeAll_owning (ps : List Nat) : Owning Mem.Owns (freeAll ps) ↑ps fun _ => 0 := by
  induction ps with
  | nil => exact .pure rfl
  | cons p ps ih =>
    apply (xFree_owning p).lose
    · rw [← Multiset.cons_coe, Multiset.singleton_add]
    · exact ih

theorem paWriteCb_owning (w : PaWrite) : Owning Mem.Owns (paWriteCb w 0) w.blocks fun _ => 0 := by
  apply (freeAll_owning w.bases).lose (q := {w.bufs} + {w.req} + {w.ctx})
  · unfold PaWrite.blocks
    abel
  · apply (xFree_owning w.bufs).lose (q := {w.req} + {w.ctx}) (by abel)
    apply (xFree_owning w.ctx).lose (add_comm _ _)
    exact xFree_owning w.req

theorem paOnConn_owning (c : Client) (hkey : c.keyWrite = none) (status : Int) :
    Owning Mem.Owns (paOnConn sys sz c status) c.blocks Client.blocks := by
  unfold paOnConn
  split
  · exact .pure rfl
  · apply (xMalloc_owning sys _).gain
    intro base
    apply (xMalloc_owning sys _).gain
    intro buf
    apply (xMalloc_owning sys _).gain
    intro req
    apply (xMalloc_owning sys _).gain
    intro ctx
    apply (paHandleQueue_owning _).of_eq
    simp only [Client.blocks, Client.pending, hkey, KeyWrite.blocks, Option.elim_some,
      Option.elim_none]
    abel

theorem paKeyWriteCb_owning {c : Client} {w : KeyWrite} (hkey : c.keyWrite = some w) :
    Owning Mem.Owns (paKeyWriteCb sys sz c w 0) c.blocks Client.blocks := by
  have hqueue :
      Owning Mem.Owns (paHandleQueue sys sz { c with connected := true, keyWrite := none })
        (Client.blocks { c with keyWrite := none }) Client.blocks := paHandleQueue_owning _
  apply hqueue.bind (q := w.blocks)
  · simp only [Client.blocks, Client.pending, hkey, Option.elim_some, Option.elim_none]
    abel
  · intro c'
    apply (xFree_owning w.base).lose (q := c'.blocks + {w.buf} + {w.req} + {w.ctx})
    · unfold KeyWrite.blocks
      abel
    · apply (xFree_owning w.buf).lose (q := c'.blocks + {w.req} + {w.ctx}) (by abel)
      apply (xFree_owning w.ctx).lose (q := c'.blocks + {w.req}) (by abel)
      apply (xFree_owning w.req).lose (add_comm _ _)
      exact .pure rfl

theorem paClientFetch_owning (c : Client) (r : Request) :
    Owning Mem.Owns (paClientFetch sys sz c r) (c.blocks + r.blocks) Client.blocks := by
  apply (paHandleQueue_owning _).of_eq
  simp only [Client.blocks, Client.pending, List.map_append, List.sum_append, List.map_cons,
    List.map_nil, List.sum_cons, List.sum_nil]
  abel

theorem caOnConn_owning : Owning Mem.Owns (caOnConn sys sz) 0 HttpConn.blocks := by
  apply (xMalloc_owning sys _).gain
  intro client
  apply (xMalloc_owning sys _).gain
  intro parser
  apply Owning.pure
  unfold HttpConn.blocks
  abel

theorem actDoneWriteCb_owning (w : DoneWrite) (status : Int) :
    Owning Mem.Owns (actDoneWriteCb w status) w.blocks fun _ => 0 := by
  apply (xFree_owning w.base).lose (q := {w.buf} + {w.req})
  · unfold DoneWrite.blocks
    abel
  · apply (xFree_owning w.buf).lose rfl
    exact xFree_owning w.req

/-- The callback has no use for the block of the result when it returns. -/
theorem paReadCb_owning (resp : ActResponse) : Owning Mem.Owns (paReadCb sys sz resp) 0
    fun r => {r.1} + r.2.blocks := by
  have hdone : Owning Mem.Owns (actDoneCallback sys sz resp) 0 DoneWrite.blocks := by
    apply (xMalloc_owning sys _).gain
    intro req
    apply (xMalloc_owning sys _).gain
    intro buf
    apply (xMalloc_owning sys _).gain
    intro base
    apply Owning.pure
    unfold DoneWrite.blocks
    abel
  apply (xMalloc_owning sys _).gain
  intro result
  apply hdone.gain
  intro write
  apply Owning.pure
  abel

theorem newRequest_owning (act : ActRequest) :
    Owning Mem.Owns (newRequest sys sz act) 0 Request.blocks := by
  apply (xMalloc_owning sys _).gain
  intro request
  apply (xMalloc_owning sys _).gain
  intro parameter
  apply Owning.pure
  unfold Request.blocks
  abel

theorem newClient_owning (key : ActReuseKey) (len : FormField → Int) :
    Owning Mem.Owns (newClient sys sz key len) 0 Client.blocks := by
  apply (xMalloc_owning sys _).gain
  intro reuseKey
  apply (xMalloc_owning sys _).gain
  intro interface
  apply (xMalloc_owning sys _).gain
  intro method
  apply (xMalloc_owning sys _).gain
  intro pts
  apply Owning.pure
  simp only [Client.blocks, Client.pending, ReuseKey.blocks, List.map_nil, List.sum_nil,
    Option.elim_none]
  abel

/-! ## Clients -/

/-- A client that is about to handle its queue: responses are read only once reading has started,
and then `connected` waits for the write of the key. -/
structure Client.Ready (c : Client) : Prop where
  fetched : c.que ≠ [] → 0 < c.fetched
  opened : 0 < c.answered → c.opened = true
  awaits : c.opened = true → c.connected = false → c.keyWrite ≠ none
  unsent : c.opened = false → c.keyWrite = none

structure Client.Ok (c : Client) : Prop extends c.Ready where
  drained : c.connected = true → c.que = []

theorem paHandleQueue_returns {c : Client} (hc : c.Ready) :
    Returns (paHandleQueue sys sz c) Client.Ok := by
  have hempty : ∀ writes, Client.Ok { c with que := [], writes := writes } :=
    fun writes => ⟨⟨fun h => absurd rfl h, hc.opened, hc.awaits, hc.unsent⟩, fun _ => rfl⟩
  unfold paHandleQueue
  split
  · apply Returns.skip
    intro bufs
    apply Returns.skip
    intro bases
    split
    · apply Returns.skip
      intro _
      exact .pure (hempty _)
    · apply Returns.skip
      intro req
      apply Returns.skip
      intro ctx
      exact .pure (hempty _)
  · rename_i hoff
    exact .pure ⟨hc, fun hon => absurd hon hoff⟩

theorem paOnConn_returns {c : Client} (hc : c.Ok) (status : Int) :
    Returns (paOnConn sys sz c status) Client.Ok := by
  unfold paOnConn
  split
  · exact .pure hc
  · apply Returns.skip
    intro base
    apply Returns.skip
    intro buf
    apply Returns.skip
    intro req
    apply Returns.skip
    intro ctx
    exact paHandleQueue_returns ⟨hc.fetched, fun _ => rfl, fun _ _ => nofun, nofun⟩

theorem paKeyWriteCb_returns {c : Client} (hc : c.Ok) (w : KeyWrite) :
    Returns (paKeyWriteCb sys sz c w 0) Client.Ok := by
  have hready : Client.Ready { c with connected := true, keyWrite := none } :=
    ⟨hc.fetched, hc.opened, nofun, fun _ => rfl⟩
  refine Returns.bind (paHandleQueue_returns hready) ?_
  intro c' hc'
  apply Returns.skip
  intro _
  apply Returns.skip
  intro _
  apply Returns.skip
  intro _
  apply Returns.skip
  intro _
  exact .pure hc'

theorem paClientFetch_returns {c : Client} (hc : c.Ok) (r : Request) :
    Returns (paClientFetch sys sz c r) Client.Ok :=
  paHandleQueue_returns ⟨fun _ => Nat.succ_pos _, hc.opened, hc.awaits, hc.unsent⟩

theorem newClient_returns (key : ActReuseKey) (len : FormField → Int) :
    Returns (newClient sys sz key len) Client.Ok := by
  apply Returns.skip
  intro reuseKey
  apply Returns.skip
  intro interface
  apply Returns.skip
  intro method
  apply Returns.skip
  intro pts
  exact .pure ⟨⟨fun h => absurd rfl h, nofun, nofun, fun _ => rfl⟩, fun _ => rfl⟩

end

/-! ## The invariant -/

theorem exists_rest {α M : Type} [AddCommMonoid M] (f : α → M) {l : List α} {i : Nat} {a : α}
    (h : l[i]? = some a) : ∃ r, (l.map f).sum = f a + r ∧
      (∀ b, ((l.set i b).map f).sum = f b + r) ∧ ((l.eraseIdx i).map f).sum = r := by
  induction l generalizing i with
  | nil => simp at h
  | cons b l ih =>
    cases i with
    | zero =>
      obtain rfl : b = a := by simpa using h
      exact ⟨(l.map f).sum, by simp, by simp, by simp⟩
    | succ i =>
      obtain ⟨r, hsum, hset, herase⟩ := ih (by simpa using h)
      refine ⟨f b + r, ?_, ?_, ?_⟩
      · rw [List.map_cons, List.sum_cons, hsum]
        exact add_left_comm _ _ _
      · intro c
        rw [List.set_cons_succ, List.map_cons, List.sum_cons, hset]
        exact add_left_comm _ _ _
      · rw [List.eraseIdx_cons_succ, List.map_cons, List.sum_cons, herase]

namespace Agent
variable {sys : Nat → Nat} {sz : Sizes} {x x' : Agent}

def owned (x : Agent) : Multiset Nat :=
  (x.conns.map HttpConn.blocks).sum + (x.clients.map Client.blocks).sum +
    (x.doneWrites.map DoneWrite.blocks).sum + ↑x.results

/-- Every block has its place. -/
structure Inv (x : Agent) : Prop where
  owns : x.mem.Owns x.owned
  clients : ∀ c ∈ x.clients, c.Ok

theorem onClient_inv {q : Multiset Nat} (howns : x.mem.Owns (x.owned + q))
    (hclients : ∀ c ∈ x.clients, c.Ok) {p : Nat} {f : Client → Alloc Client}
    (hf : ∀ c ∈ x.clients, Owning Mem.Owns (f c) (c.blocks + q) Client.blocks ∧
      Returns (f c) Client.Ok)
    (h : x.onClient p f = some x') : x'.Inv := by
  obtain ⟨c, hc, h⟩ := Option.bind_eq_some_iff.mp h
  obtain ⟨⟨c', m⟩, hrun, rfl⟩ := Option.map_eq_some_iff.mp h
  have hmem := List.mem_of_getElem? hc
  obtain ⟨howning, hreturns⟩ := hf c hmem
  obtain ⟨r, hsum, hset, _⟩ := exists_rest Client.blocks hc
  constructor
  · have hbefore : x.owned + q = c.blocks + q + ((x.conns.map HttpConn.blocks).sum + r +
        (x.doneWrites.map DoneWrite.blocks).sum + ↑x.results) := by
      unfold owned
      rw [hsum]
      abel
    rw [hbefore] at howns
    have hafter := howning _ _ _ _ howns hrun
    unfold owned
    simp only [hset]
    convert hafter using 1
    abel
  · intro d hd
    rcases List.mem_or_eq_of_mem_set hd with hd | rfl
    · exact hclients d hd
    · exact hreturns _ _ _ hrun

theorem Inv.onClient (hx : x.Inv) {p : Nat} {f : Client → Alloc Client}
    (hf : ∀ c ∈ x.clients, Owning Mem.Owns (f c) c.blocks Client.blocks ∧ Returns (f c) Client.Ok)
    (h : x.onClient p f = some x') : x'.Inv := by
  apply onClient_inv (q := 0) _ hx.clients _ h
  · rw [add_zero]
    exact hx.owns
  · intro c hc
    rw [add_zero]
    exact hf c hc

theorem clientsFor_owning (x : Agent) (server : CaServer) (len : FormField → Int) :
    Owning Mem.Owns (x.clientsFor sys sz server len) (x.clients.map Client.blocks).sum
      fun cs => (cs.map Client.blocks).sum := by
  unfold clientsFor
  split
  · exact .pure rfl
  · apply (newClient_owning _ len).gain
    intro c
    apply Owning.pure
    rw [List.map_append, List.sum_append, List.map_singleton, List.sum_singleton]
    exact add_comm _ _

theorem clientsFor_returns (hclients : ∀ c ∈ x.clients, c.Ok) (server : CaServer)
    (len : FormField → Int) :
    Returns (x.clientsFor sys sz server len) fun cs => ∀ c ∈ cs, c.Ok := by
  unfold clientsFor
  split
  · exact .pure hclients
  · refine (newClient_returns _ len).bind ?_
    intro c hc
    apply Returns.pure
    intro d hd
    rcases List.mem_append.mp hd with hd | hd
    · exact hclients d hd
    · obtain rfl := List.mem_singleton.mp hd
      exact hc

/-- What `_h_on_body` does: look a client up, allocate the request, and fetch it. -/
theorem exists_of_onBody {eidx : Fin 10} {id : Int} {data : Bytes}
    (h : x.onBody sys sz eidx id data = some x') : ∃ server len act cs m r m' p, act.id = id ∧
      x.clientsFor sys sz server len x.mem = some (cs, m) ∧ newRequest sys sz act m = some (r, m') ∧
        Agent.onClient { x with mem := m', server := server, clients := cs } p
          (fun c => paClientFetch sys sz c r) = some x' := by
  obtain ⟨spans, _, h⟩ := Option.bind_eq_some_iff.mp h
  obtain ⟨server, hserver, h⟩ := Option.bind_eq_some_iff.mp h
  obtain ⟨⟨p, act⟩, hlast, h⟩ := Option.bind_eq_some_iff.mp h
  obtain ⟨⟨cs, m⟩, hcs, h⟩ := Option.bind_eq_some_iff.mp h
  obtain ⟨⟨r, m'⟩, hr, h⟩ := Option.bind_eq_some_iff.mp h
  refine ⟨server, _, act, cs, m, r, m', p, ?_, hcs, hr, h⟩
  obtain ⟨f, _, hclient⟩ := Option.bind_eq_some_iff.mp hserver
  obtain ⟨found, _, rfl⟩ := Option.map_eq_some_iff.mp hclient
  rw [List.getLast?_concat, Option.some.injEq] at hlast
  obtain ⟨_, rfl⟩ := Prod.mk.inj hlast
  rfl

theorem Inv.onBody (hx : x.Inv) {eidx : Fin 10} {id : Int} {data : Bytes}
    (h : x.onBody sys sz eidx id data = some x') : x'.Inv := by
  obtain ⟨server, len, act, cs, m, r, m', p, _, hcs, hr, h⟩ := exists_of_onBody h
  have hok := clientsFor_returns hx.clients _ _ _ _ _ hcs
  have howns : m.Owns ((cs.map Client.blocks).sum + ((x.conns.map HttpConn.blocks).sum +
      (x.doneWrites.map DoneWrite.blocks).sum + ↑x.results)) := by
    apply clientsFor_owning _ _ _ _ _ _ _ _ hcs
    convert hx.owns using 1
    unfold owned
    abel
  have howns' := newRequest_owning act _ _ _ _ (by rwa [zero_add]) hr
  apply onClient_inv _ hok
    (fun c hc => ⟨paClientFetch_owning c r, paClientFetch_returns (hok c hc) r⟩) h
  convert howns' using 1
  unfold owned
  abel

/-- A completed write gives its blocks back. -/
theorem written_owning {c : Client} {i : Nat} {w : PaWrite} (hw : c.writes[i]? = some w) :
    Owning Mem.Owns (do
      paWriteCb w 0
      pure { c with writes := c.writes.eraseIdx i }) c.blocks Client.blocks := by
  obtain ⟨r, hsum, _, herase⟩ := exists_rest PaWrite.blocks hw
  apply (paWriteCb_owning w).lose (q := c.keyBlocks.blocks +
    ((c.que.map Request.blocks).sum + c.keyWrite.elim 0 KeyWrite.blocks + r))
  · unfold Client.blocks Client.pending
    rw [hsum]
    abel
  · apply Owning.pure
    simp only [Client.blocks, Client.pending, herase]

theorem Inv.response (hx : x.Inv) {p : Nat} {resp : ActResponse}
    (h : Agent.step sys sz x (.response p resp) = some x') : x'.Inv := by
  obtain ⟨c, hc, h⟩ := Option.bind_eq_some_iff.mp h
  split at h
  · rename_i hguard
    obtain ⟨⟨⟨result, write⟩, m⟩, hrun, rfl⟩ := Option.map_eq_some_iff.mp h
    obtain ⟨r, hsum, hset, _⟩ := exists_rest Client.blocks hc
    have hok := hx.clients c (List.mem_of_getElem? hc)
    constructor
    · convert paReadCb_owning resp _ _ _ _ (by rw [zero_add]; exact hx.owns) hrun using 1
      simp only [owned, hset, hsum, List.map_append, List.sum_append, List.map_singleton,
        List.sum_singleton, ← Multiset.coe_add, Multiset.coe_singleton]
      change _ + (c.blocks + r) + _ + _ = _
      abel
    · intro d hd
      rcases List.mem_or_eq_of_mem_set hd with hd | rfl
      · exact hx.clients d hd
      · exact ⟨⟨hok.fetched, fun _ => hguard.1, hok.awaits, hok.unsent⟩, hok.drained⟩
  · cases h

theorem Inv.doneWritten (hx : x.Inv) {i : Nat}
    (h : Agent.step sys sz x (.doneWritten i) = some x') : x'.Inv := by
  obtain ⟨w, hw, h⟩ := Option.bind_eq_some_iff.mp h
  obtain ⟨⟨_, m⟩, hrun, rfl⟩ := Option.map_eq_some_iff.mp h
  obtain ⟨r, hsum, _, herase⟩ := exists_rest DoneWrite.blocks hw
  refine ⟨?_, hx.clients⟩
  have howns : x.mem.Owns (w.blocks + ((x.conns.map HttpConn.blocks).sum +
      (x.clients.map Client.blocks).sum + r + ↑x.results)) := by
    convert hx.owns using 1
    unfold owned
    rw [hsum]
    abel
  convert actDoneWriteCb_owning w 0 _ _ _ _ howns hrun using 1
  simp only [owned, herase, zero_add]

theorem Inv.step (hx : x.Inv) {e : Event} (h : Agent.step sys sz x e = some x') : x'.Inv := by
  cases e with
  | conn =>
    obtain ⟨⟨b, m⟩, hrun, rfl⟩ := Option.map_eq_some_iff.mp h
    refine ⟨?_, hx.clients⟩
    convert caOnConn_owning _ _ _ _ (by rw [zero_add]; exact hx.owns) hrun using 1
    simp only [owned, List.map_append, List.sum_append, List.map_singleton, List.sum_singleton]
    abel
  | body eidx id data => exact hx.onBody h
  | paConn p status =>
    apply hx.onClient _ h
    intro c hc
    split
    · exact ⟨.fail, .fail⟩
    · rename_i hopened
      have hok := hx.clients c hc
      exact ⟨paOnConn_owning c (hok.unsent (Bool.eq_false_iff.mpr hopened)) status,
        paOnConn_returns hok status⟩
  | keyWritten p =>
    apply hx.onClient _ h
    intro c hc
    split
    · exact ⟨.fail, .fail⟩
    · rename_i w hkey
      exact ⟨paKeyWriteCb_owning hkey, paKeyWriteCb_returns (hx.clients c hc) w⟩
  | written p i =>
    apply hx.onClient _ h
    intro c hc
    split
    · exact ⟨.fail, .fail⟩
    · rename_i w hw
      have hok := hx.clients c hc
      refine ⟨written_owning hw, ?_⟩
      apply Returns.skip
      intro _
      exact .pure ⟨⟨hok.fetched, hok.opened, hok.awaits, hok.unsent⟩, hok.drained⟩
  | response p resp => exact hx.response h
  | doneWritten i => exact hx.doneWritten h

theorem inv_of_run {func : Bytes → Nat → Nat} {es : List Event}
    (h : run sys sz func es = some x) : x.Inv := by
  have hstart : (start func).Inv :=
    ⟨⟨XMem.inv_start, fun p hp => absurd rfl hp, rfl⟩, fun _ hc => nomatch hc⟩
  exact foldlM_keeps (P := Inv) (fun _ _ _ hx => hx.step) hstart h

end Agent

/-! ## Quiet states -/

theorem Mem.Owns.out_iff {m : Mem} {s : Multiset Nat} (hm : m.Owns s) (p : Nat) :
    m.heap.pool.ptrSizeMap p ≠ none ∧ p ∉ m.heap.pool.ptrPool.map Prod.snd ↔ p ∈ s := by
  rw [← hm.handed, Multiset.mem_coe]
  constructor
  · rintro ⟨hsize, hpool⟩
    rcases hm.known p hsize with hmem | hmem
    · exact absurd hmem hpool
    · exact hmem
  · intro hmem
    obtain ⟨n, hsize, _⟩ := hm.inv.out p hmem
    refine ⟨by simp [hsize], ?_⟩
    intro hpool
    obtain ⟨d, hd, rfl⟩ := List.mem_map.mp hpool
    exact hm.inv.not_handed hd hmem

theorem Mem.Owns.nodup {m : Mem} {s : Multiset Nat} (hm : m.Owns s) : s.Nodup := by
  rw [← hm.handed]
  exact Multiset.coe_nodup.mpr hm.inv.handed_nodup

/-- A request that is still queued has no answer, unless the write of the key is under way. -/
theorem Client.Ok.pending_eq_zero {c : Client} (hc : c.Ok) (hanswered : c.answered = c.fetched)
    (hkey : c.keyWrite = none) (hwrites : c.writes = []) : c.pending = 0 := by
  have hque : c.que = [] := by
    by_contra hque
    have hopened : c.opened = true := by
      apply hc.opened
      rw [hanswered]
      exact hc.fetched hque
    have hoff : c.connected = false := Bool.eq_false_iff.mpr fun hon => hque (hc.drained hon)
    exact hc.awaits hopened hoff hkey
  simp [Client.pending, hque, hkey, hwrites]

namespace Agent
variable {sys : Nat → Nat} {sz : Sizes} {x x' : Agent}

theorem Inv.owned_eq (hx : x.Inv) (hquiet : x.Quiet) :
    x.owned = x.perConnection + ↑x.results := by
  have hclients : x.clients.map Client.blocks = x.clients.map fun c => c.keyBlocks.blocks := by
    apply List.map_congr_left
    intro c hc
    rw [Client.blocks, (hx.clients c hc).pending_eq_zero (hquiet.answered c hc)
      (hquiet.keyWrites c hc) (hquiet.writes c hc), add_zero]
  rw [owned, hclients, hquiet.doneWrites, List.map_nil, List.sum_nil, add_zero]
  rfl

theorem Inv.balanced_iff (hx : x.Inv) (hquiet : x.Quiet) : x.Balanced ↔ x.results = [] := by
  have howns := hx.owns
  rw [hx.owned_eq hquiet] at howns
  constructor
  · intro hbalanced
    apply List.eq_nil_iff_forall_not_mem.mpr
    intro p hp
    have hout : p ∈ x.perConnection + ↑x.results := Multiset.mem_add.mpr (Or.inr hp)
    have hconn := (hbalanced p).mp ((howns.out_iff p).mpr hout)
    exact Multiset.disjoint_left.mp (Multiset.nodup_add.mp howns.nodup).2.2 hconn hp
  · intro hresults p
    rw [howns.out_iff p, hresults, Multiset.coe_nil, add_zero]

theorem onClient_results {p : Nat} {f : Client → Alloc Client} (h : x.onClient p f = some x') :
    x'.results = x.results := by
  obtain ⟨c, _, h⟩ := Option.bind_eq_some_iff.mp h
  obtain ⟨_, _, rfl⟩ := Option.map_eq_some_iff.mp h
  rfl

theorem onBody_results {eidx : Fin 10} {id : Int} {data : Bytes}
    (h : x.onBody sys sz eidx id data = some x') : x'.results = x.results := by
  obtain ⟨server, len, act, cs, m, r, m', p, _, _, _, h⟩ := exists_of_onBody h
  rw [onClient_results h]

theorem step_results {e : Event} (h : step sys sz x e = some x') :
    x'.results.length = x.results.length + if e.isResponse then 1 else 0 := by
  cases e with
  | conn =>
    obtain ⟨_, _, rfl⟩ := Option.map_eq_some_iff.mp h
    rfl
  | body eidx id data => exact congrArg List.length (onBody_results h)
  | paConn p status => exact congrArg List.length (onClient_results h)
  | keyWritten p => exact congrArg List.length (onClient_results h)
  | written p i => exact congrArg List.length (onClient_results h)
  | response p resp =>
    obtain ⟨c, _, h⟩ := Option.bind_eq_some_iff.mp h
    split at h
    · obtain ⟨r, _, rfl⟩ := Option.map_eq_some_iff.mp h
      exact List.length_append
    · cases h
  | doneWritten i =>
    obtain ⟨w, _, h⟩ := Option.bind_eq_some_iff.mp h
    obtain ⟨_, _, rfl⟩ := Option.map_eq_some_iff.mp h
    rfl

/-- The results of all responses of a run are still there. -/
theorem run_results {es : List Event} (h : es.foldlM (step sys sz) x = some x') :
    x'.results.length = x.results.length + es.countP Event.isResponse := by
  induction es generalizing x with
  | nil =>
    obtain rfl := Option.some.inj h
    rfl
  | cons e es ih =>
    obtain ⟨x₁, hstep, hrest⟩ := Option.bind_eq_some_iff.mp h
    rw [ih hrest, step_results hstep, List.countP_cons]
    omega

end Agent

/-- A run leaves nothing but the blocks of connections behind if and only if it reads no response:
every other block comes back, the one of a result never does. -/
theorem balanced_iff_no_response {sys : Nat → Nat} {sz : Sizes} {func : Bytes → Nat → Nat}
    {es : List Event} {x : Agent} (h : Agent.run sys sz func es = some x) (hquiet : x.Quiet) :
    x.Balanced ↔ ∀ p resp, Event.response p resp ∉ es := by
  have hcount := Agent.run_results h
  rw [show (Agent.start func).results = [] from rfl, List.length_nil, Nat.zero_add] at hcount
  rw [(Agent.inv_of_run h).balanced_iff hquiet, ← List.length_eq_zero_iff, hcount,
    List.countP_eq_zero]
  constructor
  · intro hnone p resp hmem
    exact hnone _ hmem rfl
  · intro hnone e he hresponse
    cases e with
    | response p resp => exact hnone p resp he
    | _ => cases hresponse

/-- One HTTP request, from its connection to the last write of its answer. -/
def oneRequest : List Event :=
  [.conn, .body (Fin.last 9) 7 (ascii "interface=a&method=b&parameterTypesString=c&parameter=d"),
    .paConn 0 0, .keyWritten 0, .written 0 0, .response 0 ⟨7, 4, ascii "1\n7\n"⟩, .doneWritten 0]

def place (n : Nat) : Nat := 4096 * (n + 1)

def sizes : Sizes := ⟨248, 16, 192, 32, 48, 64, 16, 16⟩

theorem exists_quiet_run : ∃ x, Agent.run place sizes bkdrHash oneRequest = some x ∧ x.Quiet ∧
    x.results ≠ [] := by
  have hrun : ((Agent.run place sizes bkdrHash oneRequest).any fun x =>
      decide (x.Quiet ∧ x.results ≠ [])) = true := by
    decide +kernel
  obtain ⟨x, hx, hquiet⟩ := (Option.any_eq_true _ _).mp hrun
  exact ⟨x, hx, of_decide_eq_true hquiet⟩

/-- A connection that sends nothing leaves its two blocks, and a request that has been answered
leaves one too many. -/
theorem balanced_iff_no_response_runs :
    (∃ x, Agent.run place sizes bkdrHash [.conn] = some x ∧ x.Quiet ∧ x.Balanced) ∧
      ∃ x, Agent.run place sizes bkdrHash oneRequest = some x ∧ x.Quiet ∧ ¬ x.Balanced := by
  constructor
  · have hrun : ((Agent.run place sizes bkdrHash [.conn]).any fun x => decide x.Quiet) = true := by
      decide +kernel
    obtain ⟨x, hx, hquiet⟩ := (Option.any_eq_true _ _).mp hrun
    refine ⟨x, hx, of_decide_eq_true hquiet, ?_⟩
    apply (balanced_iff_no_response hx (of_decide_eq_true hquiet)).mpr
    intro p resp hmem
    cases hmem with
    | tail _ hmem => cases hmem
  · obtain ⟨x, hx, hquiet, _⟩ := exists_quiet_run
    refine ⟨x, hx, hquiet, ?_⟩
    intro hbalanced
    apply (balanced_iff_no_response hx hquiet).mp hbalanced 0 ⟨7, 4, ascii "1\n7\n"⟩
    simp [oneRequest]

/-- After one request and its answer everything is quiet and a block is missing. -/
theorem not_balanced : ∃ x, Agent.run place sizes bkdrHash oneRequest = some x ∧ x.Quiet ∧
    ¬ x.Balanced := by
  obtain ⟨x, hx, hquiet, hresults⟩ := exists_quiet_run
  refine ⟨x, hx, hquiet, ?_⟩
  rw [(Agent.inv_of_run hx).balanced_iff hquiet]
  exact hresults

end PyAgent.Blocks
