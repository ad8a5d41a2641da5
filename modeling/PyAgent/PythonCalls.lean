import PyAgent.Answers
import PyAgent.Python
import PyAgent.Streaming.Ledger
import PyAgent.Streaming.Runs
import Mathlib.Data.List.Nodup

/-!
# The connections of the Python agents

`PAConnection` of pa_client.py and `DubboConnection` of dubbo_client.py keep requests
and callbacks in the same way and differ in what they send and in how they cut
responses out of the stream. A connection has one read callback at a time; the loop
calls it once the bytes it has asked for are there.
-/

namespace PyAgent.Python
set_option autoImplicit false

open Streaming

/-- What a read callback makes of its bytes: it goes on to the next field, the first time with the
id of a response, and comes to the response at last. -/
inductive Took (σ ν : Type) where
  | head (id : Int) (s : σ)
  | next (s : σ)
  | response (id : Int) (v : ν)

/-- What tells the two connections apart; `none` is a `struct.error`. -/
structure Protocol (ρ σ ν : Type) where
  id : ρ → Int
  responseId : ν → Int
  encode : ρ → Option Bytes
  greeting : Option Bytes
  first : σ
  numBytes : σ → Nat
  take : σ → Bytes → Took σ ν

/-- `prof` holds the times of a request, of which only the number matters here. -/
structure Connection (ρ σ ν γ : Type) where
  connected : Bool := false
  queue : List ρ := []
  callbacks : Int → Option γ := fun _ => none
  prof : Int → Option Nat := fun _ => none
  stream : Bytes := []
  buffer : Bytes := []
  reading : Option σ := none
  called : List (γ × ν) := []

namespace Connection
variable {ρ σ ν γ : Type} (P : Protocol ρ σ ν)

/-- `self.prof[id].append(time.time())`; `none` is a `KeyError`, here and below. -/
def stamp (conn : Connection ρ σ ν γ) (id : Int) : Option (Connection ρ σ ν γ) :=
  (conn.prof id).map fun times =>
    { conn with prof := Function.update conn.prof id (some (times + 1)) }

def writeAll : List ρ → Connection ρ σ ν γ → Option (Connection ρ σ ν γ)
  | [], conn => some conn
  | r :: queue, conn => do
    let conn ← conn.stamp (P.id r)
    let body ← P.encode r
    writeAll queue { conn with stream := conn.stream ++ body }

def processQueue (conn : Connection ρ σ ν γ) : Option (Connection ρ σ ν γ) :=
  if conn.connected then writeAll P conn.queue { conn with queue := [] } else some conn

def onConnect (conn : Connection ρ σ ν γ) : Option (Connection ρ σ ν γ) := do
  let greeting ← P.greeting
  let conn ← processQueue P { conn with connected := true, stream := conn.stream ++ greeting }
  some { conn with reading := some P.first }

def fetch (conn : Connection ρ σ ν γ) (r : ρ) (callback : γ) : Option (Connection ρ σ ν γ) :=
  processQueue P { conn with
    callbacks := Function.update conn.callbacks (P.id r) (some callback)
    prof := Function.update conn.prof (P.id r) (some 1)
    queue := conn.queue ++ [r] }

/-- The callback of the request is looked up, both entries go, and it is called. -/
def answer (conn : Connection ρ σ ν γ) (id : Int) (v : ν) : Option (Connection ρ σ ν γ) :=
  match conn.callbacks id, conn.prof id with
  | some callback, some _ => some { conn with
      callbacks := Function.update conn.callbacks id none
      prof := Function.update conn.prof id none
      called := conn.called ++ [(callback, v)] }
  | _, _ => none

/-- The read callback, when its bytes are there. -/
def readCallback (conn : Connection ρ σ ν γ) : Option (Connection ρ σ ν γ) :=
  match conn.reading with
  | none => none
  | some s =>
    if P.numBytes s ≤ conn.buffer.length then
      let rest := { conn with buffer := conn.buffer.drop (P.numBytes s) }
      match P.take s (conn.buffer.take (P.numBytes s)) with
      | .head id s' => (rest.stamp id).map fun conn => { conn with reading := some s' }
      | .next s' => some { rest with reading := some s' }
      | .response id v => (rest.answer id v).map fun conn =>
          { conn with reading := some P.first }
    else none

end Connection

/-! ## Responses as bytes -/

/-- The fields behind the one with the id. -/
inductive Protocol.Rest {ρ σ ν : Type} (P : Protocol ρ σ ν) (id : Int) (v : ν) :
    σ → Bytes → Prop where
  | last {s : σ} {bs : Bytes} (hlen : P.numBytes s = bs.length)
      (htake : P.take s bs = .response id v) : Rest P id v s bs
  | more {s s' : σ} {bs bs' : Bytes} (hlen : P.numBytes s = bs.length)
      (htake : P.take s bs = .next s') (hrest : Rest P id v s' bs') : Rest P id v s (bs ++ bs')

def Protocol.Frame {ρ σ ν : Type} (P : Protocol ρ σ ν) (id : Int) (v : ν) (bs : Bytes) : Prop :=
  ∃ hd tl s, bs = hd ++ tl ∧ P.numBytes P.first = hd.length ∧ P.take P.first hd = .head id s ∧
    P.Rest id v s tl

/-- The id of a response is the one that its bytes begin with. -/
structure Protocol.Lawful {ρ σ ν : Type} (P : Protocol ρ σ ν) : Prop where
  first_pos : 0 < P.numBytes P.first
  frame_id : ∀ {id : Int} {v : ν} {bs : Bytes}, P.Frame id v bs → P.responseId v = id

/-! ## Runs -/

/-- The response to the request at position `ticket`. -/
structure Reply (ν : Type) where
  ticket : Nat
  value : ν
  bytes : Bytes

/-- A connection with what the peer has sent and the loop has not read yet. -/
structure Talk (ρ σ ν γ : Type) where
  conn : Connection ρ σ ν γ
  wire : Bytes
  issued : List (ρ × γ)
  replies : List (Reply ν)

namespace Talk
variable {ρ σ ν γ : Type} (P : Protocol ρ σ ν)

inductive Event (ρ ν γ : Type) where
  | connect
  | fetch (r : ρ) (callback : γ)
  | reply (r : Reply ν)
  | receive (n : Nat)
  | readCallback

def start (ρ σ ν γ : Type) : Talk ρ σ ν γ := ⟨{}, [], [], []⟩

/-- `none` where the event cannot happen or the code raises an exception. -/
def step (x : Talk ρ σ ν γ) : Event ρ ν γ → Option (Talk ρ σ ν γ)
  | .connect =>
    if x.conn.connected then none
    else (x.conn.onConnect P).map fun conn => { x with conn := conn }
  | .fetch r callback =>
    (x.conn.fetch P r callback).map fun conn =>
      { x with conn := conn, issued := x.issued ++ [(r, callback)] }
  | .reply r =>
    if r.ticket + x.conn.queue.length < x.issued.length ∧ x.conn.connected ∧
        r.ticket ∉ x.replies.map Reply.ticket then
      some { x with wire := x.wire ++ r.bytes, replies := x.replies ++ [r] }
    else none
  | .receive n => some { x with
      conn := { x.conn with buffer := x.conn.buffer ++ x.wire.take n }
      wire := x.wire.drop n }
  | .readCallback => (x.conn.readCallback P).map fun conn => { x with conn := conn }

/-- What can happen: a connection is made once, the read callback is called when its bytes are
there, and the peer answers once what has been written to it. -/
def Can (x : Talk ρ σ ν γ) : Event ρ ν γ → Prop
  | .connect => x.conn.connected = false
  | .reply r => r.ticket + x.conn.queue.length < x.issued.length ∧ x.conn.connected ∧
      r.ticket ∉ x.replies.map Reply.ticket
  | .readCallback => ∃ s, x.conn.reading = some s ∧ P.numBytes s ≤ x.conn.buffer.length
  | _ => True

/-- Keys and requests can be encoded, and the peer sends responses to what it has been asked. -/
def Regular (x : Talk ρ σ ν γ) : Event ρ ν γ → Prop
  | .connect => P.greeting.isSome
  | .fetch r _ => (P.encode r).isSome
  | .reply r => ∀ call, x.issued[r.ticket]? = some call → P.Frame (P.id call.1) r.value r.bytes
  | _ => True

/-- The id of a new request is not in `_callbacks`. Nothing in the code sees to it: the entry of a
request that waits is overwritten. -/
def FreshIds (x : Talk ρ σ ν γ) : Event ρ ν γ → Prop
  | .fetch r _ => x.conn.callbacks (P.id r) = none
  | _ => True

def Allowed (x : Talk ρ σ ν γ) (e : Event ρ ν γ) : Prop := Regular P x e ∧ FreshIds P x e

def Reached : Talk ρ σ ν γ → Prop := Runs (Allowed P) (step P) (start ρ σ ν γ)

def callId (call : ρ × γ) : Int := P.id call.1

/-- The responses whose callbacks have been called. -/
def served (x : Talk ρ σ ν γ) : List (Reply ν) := x.replies.take x.conn.called.length

def left (x : Talk ρ σ ν γ) : List (Reply ν) := x.replies.drop x.conn.called.length

def ledger (x : Talk ρ σ ν γ) : Ledger (ρ × γ) := ⟨x.issued, x.served.map Reply.ticket⟩

/-- The callback of a request has been called with the response to it, which carries its id. -/
def CalledBack (issued : List (ρ × γ)) (r : Reply ν) (made : γ × ν) : Prop :=
  ∃ call, issued[r.ticket]? = some call ∧ made = (call.2, r.value) ∧
    P.responseId r.value = P.id call.1

/-- What has been written: nothing, or the greeting and the first requests. -/
def Sent (x : Talk ρ σ ν γ) : Prop :=
  ∃ written, x.issued.map Prod.fst = written ++ x.conn.queue ∧
    (x.conn.connected = false ∧ written = [] ∧ x.conn.stream = [] ∨
      x.conn.connected = true ∧ x.conn.queue = [] ∧
        ∃ greeting bodies, P.greeting = some greeting ∧ written.mapM P.encode = some bodies ∧
          x.conn.stream = greeting ++ bodies.flatten)

/-- Where the read callback stands in the stream of responses. -/
def Reads (x : Talk ρ σ ν γ) : Prop :=
  ∃ s, x.conn.reading = some s ∧
    (s = P.first ∧ x.conn.buffer ++ x.wire = (x.left.map Reply.bytes).flatten ∨
      ∃ r rest call bs, x.left = r :: rest ∧ x.issued[r.ticket]? = some call ∧
        P.Rest (P.id call.1) r.value s bs ∧
        x.conn.buffer ++ x.wire = bs ++ (rest.map Reply.bytes).flatten)

structure Inv (x : Talk ρ σ ν γ) : Prop where
  sent : Sent P x
  encodes : ∀ call ∈ x.issued, (P.encode call.1).isSome
  replied : ∀ r ∈ x.replies, ∃ call, x.issued[r.ticket]? = some call ∧
    P.Frame (P.id call.1) r.value r.bytes
  once : (x.replies.map Reply.ticket).Nodup
  called : List.Forall₂ (CalledBack P x.issued) x.served x.conn.called
  wf : x.ledger.Wf (callId P)
  callbacks : x.ledger.Finds (callId P) Prod.snd x.conn.callbacks
  prof : ∀ id, (x.conn.prof id).isSome ↔ (x.conn.callbacks id).isSome
  offline : x.conn.connected = false →
    x.conn.reading = none ∧ x.conn.buffer = [] ∧ x.wire = [] ∧ x.replies = []
  reads : x.conn.connected = true → Reads P x

theorem inv_start : Inv P (start ρ σ ν γ) := by
  refine ⟨⟨[], rfl, Or.inl ⟨rfl, rfl, rfl⟩⟩, by simp [start], by simp [start], List.nodup_nil,
    .nil, Ledger.wf_empty _, Ledger.finds_empty _ _, fun _ => Iff.rfl, ?_, ?_⟩
  · exact fun _ => ⟨rfl, rfl, rfl, rfl⟩
  · intro h
    cases h

end Talk

/-! ## Writing -/

namespace Connection
variable {ρ σ ν γ : Type} {P : Protocol ρ σ ν} {conn : Connection ρ σ ν γ}

/-- Requests that are registered and can be encoded are all written. -/
theorem writeAll_spec {queue : List ρ} (hencode : ∀ r ∈ queue, (P.encode r).isSome)
    (hprof : ∀ r ∈ queue, (conn.prof (P.id r)).isSome) :
    ∃ bodies prof, queue.mapM P.encode = some bodies ∧
      (∀ id, (prof id).isSome ↔ (conn.prof id).isSome) ∧
      conn.writeAll P queue =
        some { conn with stream := conn.stream ++ bodies.flatten, prof := prof } := by
  induction queue generalizing conn with
  | nil => exact ⟨[], conn.prof, rfl, fun _ => Iff.rfl, by simp [writeAll]⟩
  | cons r queue ih =>
    obtain ⟨body, hbody⟩ := Option.isSome_iff_exists.mp (hencode r List.mem_cons_self)
    obtain ⟨times, htimes⟩ := Option.isSome_iff_exists.mp (hprof r List.mem_cons_self)
    have hsame : ∀ id, (Function.update conn.prof (P.id r) (some (times + 1)) id).isSome ↔
        (conn.prof id).isSome := by
      intro id
      by_cases hid : id = P.id r
      · subst hid
        simp [htimes]
      · rw [Function.update_of_ne hid]
    let conn₁ : Connection ρ σ ν γ := { conn with
      prof := Function.update conn.prof (P.id r) (some (times + 1))
      stream := conn.stream ++ body }
    have hprof₁ : ∀ r' ∈ queue, (conn₁.prof (P.id r')).isSome :=
      fun r' hr' => (hsame _).mpr (hprof r' (List.mem_cons_of_mem r hr'))
    obtain ⟨bodies, prof, hbodies, hkeys, hwrite⟩ :=
      ih (fun r' hr' => hencode r' (List.mem_cons_of_mem r hr')) hprof₁
    refine ⟨body :: bodies, prof, ?_, fun id => (hkeys id).trans (hsame id), ?_⟩
    · rw [List.mapM_cons, hbody, hbodies]
      rfl
    · simp only [writeAll, stamp, htimes, hbody, Option.map_some, Option.bind_eq_bind,
        Option.bind_some]
      refine hwrite.trans ?_
      simp only [conn₁, List.flatten_cons, List.append_assoc]

theorem processQueue_connected (hconnected : conn.connected = true)
    (hencode : ∀ r ∈ conn.queue, (P.encode r).isSome)
    (hprof : ∀ r ∈ conn.queue, (conn.prof (P.id r)).isSome) :
    ∃ bodies prof, conn.queue.mapM P.encode = some bodies ∧
      (∀ id, (prof id).isSome ↔ (conn.prof id).isSome) ∧
      conn.processQueue P = some { conn with
        queue := []
        stream := conn.stream ++ bodies.flatten
        prof := prof } := by
  obtain ⟨bodies, prof, hbodies, hkeys, hwrite⟩ :=
    writeAll_spec hencode (show ∀ r ∈ conn.queue, (Connection.prof { conn with queue := [] }
      (P.id r)).isSome from hprof)
  refine ⟨bodies, prof, hbodies, hkeys, ?_⟩
  rw [processQueue, if_pos hconnected]
  exact hwrite

end Connection

namespace Talk
variable {ρ σ ν γ : Type} {P : Protocol ρ σ ν} {x x' : Talk ρ σ ν γ}

theorem open_of_unserved {j : Nat} {call : ρ × γ} (hcall : x.issued[j]? = some call)
    (hnew : j ∉ x.replies.map Reply.ticket) : x.ledger.Open j call := by
  refine ⟨hcall, ?_⟩
  intro hmem
  exact hnew (((List.take_sublist _ _).map _).subset hmem)

/-- While nothing has come back, every request is registered. -/
theorem Inv.registered (hx : Inv P x) (hreplies : x.replies = []) {call : ρ × γ}
    (hcall : call ∈ x.issued) : (x.conn.prof (P.id call.1)).isSome := by
  obtain ⟨j, hj⟩ := List.mem_iff_getElem?.mp hcall
  apply (hx.prof _).mpr
  exact (hx.callbacks.isSome_iff _).mpr ⟨j, call, open_of_unserved hj (by simp [hreplies]), rfl⟩

theorem Inv.connect (hx : Inv P x) (hoff : x.conn.connected = false) {greeting : Bytes}
    (hgreeting : P.greeting = some greeting) :
    ∃ conn', x.conn.onConnect P = some conn' ∧ Inv P { x with conn := conn' } := by
  obtain ⟨written, hsplit, ⟨_, rfl, hstream⟩ | ⟨hon, _⟩⟩ := hx.sent
  · obtain ⟨_, hbuffer, hwire, hreplies⟩ := hx.offline hoff
    have hqueue : x.issued.map Prod.fst = x.conn.queue := hsplit
    have hmem : ∀ r ∈ x.conn.queue, ∃ call ∈ x.issued, call.1 = r := by
      intro r hr
      rw [← hqueue] at hr
      exact List.mem_map.mp hr
    let conn₀ : Connection ρ σ ν γ :=
      { x.conn with connected := true, stream := x.conn.stream ++ greeting }
    have hencode : ∀ r ∈ conn₀.queue, (P.encode r).isSome := by
      intro r hr
      obtain ⟨call, hcall, rfl⟩ := hmem r hr
      exact hx.encodes call hcall
    have hprof : ∀ r ∈ conn₀.queue, (conn₀.prof (P.id r)).isSome := by
      intro r hr
      obtain ⟨call, hcall, rfl⟩ := hmem r hr
      exact hx.registered hreplies hcall
    obtain ⟨bodies, prof, hbodies, hkeys, hqueue'⟩ :=
      Connection.processQueue_connected (P := P) (show conn₀.connected = true from rfl) hencode
        hprof
    refine ⟨_, by
      simp only [Connection.onConnect, hgreeting, Option.bind_eq_bind, Option.bind_some]
      rw [show (Connection.processQueue P _ : Option (Connection ρ σ ν γ)) = _ from hqueue']
      rfl, ?_⟩
    refine ⟨?_, hx.encodes, hx.replied, hx.once, hx.called, hx.wf, hx.callbacks, ?_, ?_, ?_⟩
    · refine ⟨x.conn.queue, by simp [hqueue], Or.inr ⟨rfl, rfl, greeting, bodies, hgreeting,
        hbodies, ?_⟩⟩
      simp [conn₀, hstream]
    · exact fun id => (hkeys id).trans (hx.prof id)
    · intro h
      cases h
    · intro _
      refine ⟨P.first, rfl, Or.inl ⟨rfl, ?_⟩⟩
      simp [conn₀, hbuffer, hwire, hreplies, left]
  · rw [hoff] at hon
    cases hon

theorem Inv.fetch (hx : Inv P x) {r : ρ} {callback : γ} (hencode : (P.encode r).isSome)
    (hnew : x.conn.callbacks (P.id r) = none) :
    ∃ conn', x.conn.fetch P r callback = some conn' ∧
      Inv P { x with conn := conn', issued := x.issued ++ [(r, callback)] } := by
  have hfresh : x.ledger.Fresh (callId P) (r, callback) := by
    intro j call hopen heq
    have hsome := hx.callbacks.get hopen
    rw [heq] at hsome
    cases hnew.symm.trans hsome
  have hcallbacks := hx.callbacks.issue hx.wf hfresh
  have hwf := hx.wf.issue hfresh
  have hlt : ∀ {j : Nat} {call : ρ × γ}, x.issued[j]? = some call →
      (x.issued ++ [(r, callback)])[j]? = some call := by
    intro j call h
    exact (List.getElem?_append_left (List.getElem?_eq_some_iff.mp h).1).trans h
  have hencodes : ∀ call ∈ x.issued ++ [(r, callback)], (P.encode call.1).isSome := by
    intro call hcall
    rcases List.mem_append.mp hcall with hcall | hcall
    · exact hx.encodes call hcall
    · rw [List.mem_singleton.mp hcall]
      exact hencode
  have hreplied : ∀ q ∈ x.replies, ∃ call, (x.issued ++ [(r, callback)])[q.ticket]? = some call ∧
      P.Frame (P.id call.1) q.value q.bytes := by
    intro q hq
    obtain ⟨call, hcall, hframe⟩ := hx.replied q hq
    exact ⟨call, hlt hcall, hframe⟩
  have hcalled : List.Forall₂ (CalledBack P (x.issued ++ [(r, callback)])) x.served
      x.conn.called := by
    refine hx.called.imp ?_
    intro q made h
    obtain ⟨call, hcall, hmade⟩ := h
    exact ⟨call, hlt hcall, hmade⟩
  let conn₀ : Connection ρ σ ν γ := { x.conn with
    callbacks := Function.update x.conn.callbacks (P.id r) (some callback)
    prof := Function.update x.conn.prof (P.id r) (some 1)
    queue := x.conn.queue ++ [r] }
  have hprof₀ : ∀ id, (conn₀.prof id).isSome ↔ (conn₀.callbacks id).isSome := by
    intro id
    by_cases hid : id = P.id r
    · subst hid
      simp [conn₀]
    · simp only [conn₀, Function.update_of_ne hid]
      exact hx.prof id
  obtain ⟨written, hsplit, ⟨hoff, hwritten, hstream⟩ | ⟨hon, hqueue, greeting, bodies, hgreeting,
    hbodies, hstream⟩⟩ := hx.sent
  · refine ⟨conn₀, by rw [Connection.fetch, Connection.processQueue, if_neg (by simp [hoff])], ?_⟩
    refine ⟨?_, hencodes, hreplied, hx.once, hcalled, hwf, hcallbacks, hprof₀, hx.offline, ?_⟩
    · exact ⟨written, by simp [conn₀, hsplit], Or.inl ⟨hoff, hwritten, hstream⟩⟩
    · intro h
      rw [show x.conn.connected = true from h] at hoff
      cases hoff
  · have hone : conn₀.queue = [r] := by simp [conn₀, hqueue]
    have hon₀ : conn₀.connected = true := hon
    have hprof : ∀ r' ∈ conn₀.queue, (conn₀.prof (P.id r')).isSome := by
      intro r' hr'
      rw [hone] at hr'
      rw [List.mem_singleton.mp hr']
      simp [conn₀]
    obtain ⟨bodies', prof, hbodies', hkeys, hwrite⟩ :=
      Connection.processQueue_connected (P := P) hon₀ (by simpa [hone] using hencode) hprof
    refine ⟨_, hwrite, ?_⟩
    refine ⟨?_, hencodes, hreplied, hx.once, hcalled, hwf, hcallbacks, ?_, ?_, ?_⟩
    · refine ⟨x.issued.map Prod.fst ++ [r], by simp, Or.inr ⟨hon, rfl, greeting,
        bodies ++ bodies', hgreeting, ?_, ?_⟩⟩
      · rw [hone] at hbodies'
        rw [hsplit, hqueue, List.append_nil, List.mapM_append, hbodies, hbodies']
        rfl
      · simp [conn₀, hstream]
    · exact fun id => (hkeys id).trans (hprof₀ id)
    · intro h
      rw [show x.conn.connected = false from h] at hon
      cases hon
    · intro _
      obtain ⟨s, hs, hat | ⟨q, rest, call, bs, hleft, hcall, hrest, hbytes⟩⟩ := hx.reads hon
      · exact ⟨s, hs, Or.inl hat⟩
      · exact ⟨s, hs, Or.inr ⟨q, rest, call, bs, hleft, hlt hcall, hrest, hbytes⟩⟩

theorem Inv.called_le (hx : Inv P x) : x.conn.called.length ≤ x.replies.length := by
  have hlen := hx.called.length_eq
  rw [served, List.length_take] at hlen
  omega

theorem Inv.reply (hx : Inv P x) {r : Reply ν} {call : ρ × γ}
    (hcall : x.issued[r.ticket]? = some call) (hon : x.conn.connected = true)
    (hframe : P.Frame (P.id call.1) r.value r.bytes)
    (hnew : r.ticket ∉ x.replies.map Reply.ticket) :
    Inv P { x with wire := x.wire ++ r.bytes, replies := x.replies ++ [r] } := by
  have hle := hx.called_le
  have hserved : served { x with wire := x.wire ++ r.bytes, replies := x.replies ++ [r] } =
      x.served := List.take_append_of_le_length hle
  have hleft : left { x with wire := x.wire ++ r.bytes, replies := x.replies ++ [r] } =
      x.left ++ [r] := List.drop_append_of_le_length hle
  refine ⟨hx.sent, hx.encodes, ?_, ?_, ?_, ?_, ?_, hx.prof, ?_, ?_⟩
  · intro q hq
    rcases List.mem_append.mp hq with hq | hq
    · exact hx.replied q hq
    · rw [List.mem_singleton.mp hq]
      exact ⟨call, hcall, hframe⟩
  · rw [List.map_append]
    refine List.nodup_append.mpr ⟨hx.once, List.nodup_singleton _, ?_⟩
    intro j hj j' hj' heq
    rw [List.map_singleton, List.mem_singleton] at hj'
    rw [heq, hj'] at hj
    exact hnew hj
  · rw [hserved]
    exact hx.called
  · simp only [ledger, hserved]
    exact hx.wf
  · simp only [ledger, hserved]
    exact hx.callbacks
  · intro h
    rw [show x.conn.connected = false from h] at hon
    cases hon
  · intro _
    obtain ⟨s, hs, ⟨hfirst, hbytes⟩ | ⟨q, rest, call', bs, hq, hcall', hrest, hbytes⟩⟩ :=
      hx.reads hon
    · refine ⟨s, hs, Or.inl ⟨hfirst, ?_⟩⟩
      rw [hleft]
      simp [← List.append_assoc, hbytes]
    · refine ⟨s, hs, Or.inr ⟨q, rest ++ [r], call', bs, ?_, hcall', hrest, ?_⟩⟩
      · rw [hleft, hq, List.cons_append]
      · simp only [← List.append_assoc, hbytes]
        simp

theorem Inv.receive (hx : Inv P x) (n : Nat) : Inv P { x with
    conn := { x.conn with buffer := x.conn.buffer ++ x.wire.take n }
    wire := x.wire.drop n } := by
  have hsame : (x.conn.buffer ++ x.wire.take n) ++ x.wire.drop n = x.conn.buffer ++ x.wire := by
    rw [List.append_assoc, List.take_append_drop]
  refine ⟨hx.sent, hx.encodes, hx.replied, hx.once, hx.called, hx.wf, hx.callbacks, hx.prof, ?_,
    ?_⟩
  · intro hoff
    obtain ⟨hreading, hbuffer, hwire, hreplies⟩ := hx.offline hoff
    exact ⟨hreading, by simp [hbuffer, hwire], by simp [hwire], hreplies⟩
  · intro hon
    obtain ⟨s, hs, ⟨hfirst, hbytes⟩ | ⟨r, rest, call, bs, hleft, hcall, hrest, hbytes⟩⟩ :=
      hx.reads hon
    · exact ⟨s, hs, Or.inl ⟨hfirst, hsame.trans hbytes⟩⟩
    · exact ⟨s, hs, Or.inr ⟨r, rest, call, bs, hleft, hcall, hrest, hsame.trans hbytes⟩⟩

/-! ## One read callback -/

theorem Inv.on (hx : Inv P x) {s : σ} (hreading : x.conn.reading = some s) :
    x.conn.connected = true := by
  by_contra hoff
  have hnone := (hx.offline (by simpa using hoff)).1
  cases hnone.symm.trans hreading

theorem take_of_append {buffer wire bs rest : Bytes} {n : Nat} (h : buffer ++ wire = bs ++ rest)
    (hn : n = bs.length) (hle : n ≤ buffer.length) :
    buffer.take n = bs ∧ buffer.drop n ++ wire = rest := by
  subst hn
  constructor
  · have htake := congrArg (List.take bs.length) h
    rw [List.take_append_of_le_length hle, List.take_left] at htake
    exact htake
  · have hdrop := congrArg (List.drop bs.length) h
    rw [List.drop_append_of_le_length hle, List.drop_left] at hdrop
    exact hdrop

theorem Inv.open_left (hx : Inv P x) {r : Reply ν} {rest : List (Reply ν)}
    (hleft : x.left = r :: rest) {call : ρ × γ} (hcall : x.issued[r.ticket]? = some call) :
    x.ledger.Open r.ticket call := by
  refine ⟨hcall, ?_⟩
  intro hmem
  have hsplit : x.replies = x.served ++ r :: rest := by
    rw [← hleft, served, left, List.take_append_drop]
  have honce := hx.once
  rw [hsplit, List.map_append, List.map_cons, List.nodup_append] at honce
  exact honce.2.2 _ hmem _ List.mem_cons_self rfl

theorem Inv.id_eq (hx : Inv P x) (hlaw : P.Lawful) {r : Reply ν} {rest : List (Reply ν)}
    (hleft : x.left = r :: rest) {call : ρ × γ} (hcall : x.issued[r.ticket]? = some call) :
    P.responseId r.value = P.id call.1 := by
  have hmem : r ∈ x.replies := (List.drop_sublist _ _).subset (hleft ▸ List.mem_cons_self)
  obtain ⟨call', hcall', hframe⟩ := hx.replied r hmem
  obtain rfl : call = call' := Option.some.inj (hcall.symm.trans hcall')
  exact hlaw.frame_id hframe

/-- The response at the head of the stream finds its request, and its callback is called. -/
theorem Inv.answer (hx : Inv P x) {r : Reply ν} {rest : List (Reply ν)}
    (hleft : x.left = r :: rest) {call : ρ × γ} (hcall : x.issued[r.ticket]? = some call)
    (hid : P.responseId r.value = P.id call.1) (hon : x.conn.connected = true) {buffer : Bytes}
    (hbytes : buffer ++ x.wire = (rest.map Reply.bytes).flatten) :
    ∃ conn', Connection.answer { x.conn with buffer := buffer } (P.id call.1) r.value =
        some conn' ∧ Inv P { x with conn := { conn' with reading := some P.first } } := by
  have hopen := hx.open_left hleft hcall
  have hcallback : x.conn.callbacks (P.id call.1) = some call.2 := hx.callbacks.get hopen
  obtain ⟨times, htimes⟩ := Option.isSome_iff_exists.mp
    ((hx.prof (P.id call.1)).mpr (by rw [hcallback]; rfl))
  have hlen : x.conn.called.length < x.replies.length := by
    have h := congrArg List.length hleft
    rw [left, List.length_drop, List.length_cons] at h
    omega
  have hhead : x.replies[x.conn.called.length]? = some r := by
    have h := congrArg (fun l => l[0]?) hleft
    simpa [left] using h
  let conn' : Connection ρ σ ν γ := { x.conn with
    buffer := buffer
    callbacks := Function.update x.conn.callbacks (P.id call.1) none
    prof := Function.update x.conn.prof (P.id call.1) none
    called := x.conn.called ++ [(call.2, r.value)] }
  let y : Talk ρ σ ν γ := { x with conn := { conn' with reading := some P.first } }
  have hserved : y.served = x.served ++ [r] := by
    simp only [y, conn', served, List.length_append, List.length_singleton]
    rw [List.take_add_one, hhead]
    rfl
  have hledger : y.ledger = x.ledger.serve r.ticket := by
    simp only [ledger, hserved, Ledger.serve, List.map_append, List.map_cons, List.map_nil]
    rfl
  refine ⟨conn', ?_, ?_⟩
  · simp only [Connection.answer, hcallback, htimes, conn']
  · refine ⟨hx.sent, hx.encodes, hx.replied, hx.once, ?_, ?_, ?_, ?_, ?_, ?_⟩
    · rw [show served { x with conn := { conn' with reading := some P.first } } = _ from hserved]
      exact List.rel_append hx.called (.cons ⟨call, hcall, rfl, hid⟩ .nil)
    · rw [show ledger { x with conn := { conn' with reading := some P.first } } = _ from hledger]
      exact hx.wf.serve hopen
    · rw [show ledger { x with conn := { conn' with reading := some P.first } } = _ from hledger]
      exact hx.callbacks.serve hx.wf hopen
    · intro id
      by_cases hid : id = P.id call.1
      · subst hid
        simp [conn']
      · simp only [conn', Function.update_of_ne hid]
        exact hx.prof id
    · intro hoff
      rw [show x.conn.connected = false from hoff] at hon
      cases hon
    · intro _
      refine ⟨P.first, rfl, Or.inl ⟨rfl, ?_⟩⟩
      have hrest : y.left = rest := by
        have h := congrArg List.tail hleft
        simpa [y, conn', left] using h
      rw [show left { x with conn := { conn' with reading := some P.first } } = _ from hrest]
      exact hbytes

/-- Another field of a response has been read. -/
theorem Inv.advance (hx : Inv P x) (hon : x.conn.connected = true) {r : Reply ν}
    {rest : List (Reply ν)} (hleft : x.left = r :: rest) {call : ρ × γ}
    (hcall : x.issued[r.ticket]? = some call) {prof : Int → Option Nat}
    (hkeys : ∀ id, (prof id).isSome ↔ (x.conn.prof id).isSome) {s : σ} {bs buffer : Bytes}
    (hrest : P.Rest (P.id call.1) r.value s bs)
    (hbytes : buffer ++ x.wire = bs ++ (rest.map Reply.bytes).flatten) :
    Inv P { x with
      conn := { x.conn with buffer := buffer, prof := prof, reading := some s } } := by
  refine ⟨hx.sent, hx.encodes, hx.replied, hx.once, hx.called, hx.wf, hx.callbacks,
    fun id => (hkeys id).trans (hx.prof id), ?_, ?_⟩
  · intro hoff
    rw [show x.conn.connected = false from hoff] at hon
    cases hon
  · intro _
    exact ⟨s, rfl, Or.inr ⟨r, rest, call, bs, hleft, hcall, hrest, hbytes⟩⟩

/-- A read callback that has its bytes comes back. -/
theorem Inv.readCallback (hx : Inv P x) (hlaw : P.Lawful)
    (hon : x.conn.connected = true) {s : σ} (hreading : x.conn.reading = some s)
    (hready : P.numBytes s ≤ x.conn.buffer.length) :
    ∃ conn', x.conn.readCallback P = some conn' ∧ Inv P { x with conn := conn' } := by
  obtain ⟨s', hs', hat⟩ := hx.reads hon
  obtain rfl : s = s' := Option.some.inj (hreading.symm.trans hs')
  rcases hat with ⟨rfl, hbytes⟩ | ⟨r, rest, call, bs, hleft, hcall, hrest, hbytes⟩
  · -- the id of the next response
    cases hleft : x.left with
    | nil =>
      rw [hleft] at hbytes
      have hnil : x.conn.buffer = [] := (List.append_eq_nil_iff.mp hbytes).1
      have hpos := hlaw.first_pos
      rw [hnil, List.length_nil] at hready
      omega
    | cons r rest =>
      obtain ⟨call, hcall, hd, tl, s₁, hsplit, hlen, htake, hrest⟩ :=
        hx.replied r ((List.drop_sublist _ _).subset (by
          show r ∈ x.left
          rw [hleft]
          exact List.mem_cons_self))
      rw [hleft, List.map_cons, List.flatten_cons, hsplit, List.append_assoc] at hbytes
      obtain ⟨hdata, hdrop⟩ := take_of_append hbytes hlen hready
      have hopen := hx.open_left hleft hcall
      obtain ⟨times, htimes⟩ := Option.isSome_iff_exists.mp ((hx.prof (P.id call.1)).mpr (by
        rw [show x.conn.callbacks (P.id call.1) = some call.2 from hx.callbacks.get hopen]
        rfl))
      have hkeys : ∀ id, (Function.update x.conn.prof (P.id call.1) (some (times + 1)) id).isSome ↔
          (x.conn.prof id).isSome := by
        intro id
        by_cases hid : id = P.id call.1
        · subst hid
          simp [htimes]
        · rw [Function.update_of_ne hid]
      refine ⟨_, ?_, hx.advance hon hleft hcall hkeys hrest hdrop⟩
      simp only [Connection.readCallback, hreading, if_pos hready, hdata, htake, Connection.stamp,
        htimes, Option.map_some]
  · cases hrest with
    | last hlen htake =>
      obtain ⟨hdata, hdrop⟩ := take_of_append hbytes hlen hready
      obtain ⟨conn', hanswer, hinv⟩ := hx.answer hleft hcall (hx.id_eq hlaw hleft hcall) hon hdrop
      refine ⟨_, ?_, hinv⟩
      simp only [hreading] at hanswer
      simp only [Connection.readCallback, hreading, if_pos hready, hdata, htake, hanswer,
        Option.map_some]
    | more hlen htake hrest =>
      rw [List.append_assoc] at hbytes
      obtain ⟨hdata, hdrop⟩ := take_of_append hbytes hlen hready
      refine ⟨_, ?_, hx.advance hon hleft hcall (fun _ => Iff.rfl) hrest hdrop⟩
      simp only [Connection.readCallback, hreading, if_pos hready, hdata, htake]

/-! ## Whole runs -/

section
variable (hlaw : P.Lawful)
include hlaw

theorem inv_step {e : Event ρ ν γ} (hx : Inv P x) (he : Allowed P x e)
    (hstep : step P x e = some x') : Inv P x' := by
  cases e with
  | connect =>
    simp only [step] at hstep
    split at hstep
    · cases hstep
    · rename_i hoff
      obtain ⟨conn, hconn, rfl⟩ := Option.map_eq_some_iff.mp hstep
      have hoff' : x.conn.connected = false := by simpa using hoff
      cases hgreeting : P.greeting with
      | none => simp [Connection.onConnect, hgreeting] at hconn
      | some greeting =>
        obtain ⟨conn', hconn', hinv⟩ := hx.connect hoff' hgreeting
        obtain rfl : conn = conn' := Option.some.inj (hconn.symm.trans hconn')
        exact hinv
  | fetch r callback =>
    obtain ⟨conn, hconn, rfl⟩ := Option.map_eq_some_iff.mp hstep
    obtain ⟨conn', hconn', hinv⟩ := hx.fetch he.1 he.2
    obtain rfl : conn = conn' := Option.some.inj (hconn.symm.trans hconn')
    exact hinv
  | reply r =>
    simp only [step, Option.ite_none_right_eq_some, Option.some.injEq] at hstep
    obtain ⟨⟨hlt, hon, hnew⟩, rfl⟩ := hstep
    have hget : r.ticket < x.issued.length := by omega
    exact hx.reply (List.getElem?_eq_getElem hget) hon (he.1 _ (List.getElem?_eq_getElem hget)) hnew
  | receive n =>
    obtain rfl := Option.some.inj hstep
    exact hx.receive n
  | readCallback =>
    obtain ⟨conn, hconn, rfl⟩ := Option.map_eq_some_iff.mp hstep
    have hcalled := hconn
    unfold Connection.readCallback at hcalled
    cases hreading : x.conn.reading with
    | none => simp [hreading] at hcalled
    | some s =>
      have hon := hx.on hreading
      have hready : P.numBytes s ≤ x.conn.buffer.length := by
        by_contra hshort
        simp [hreading, hshort] at hcalled
      obtain ⟨conn', hconn', hinv⟩ := hx.readCallback hlaw hon hreading hready
      obtain rfl : conn = conn' := Option.some.inj (hconn.symm.trans hconn')
      exact hinv

theorem inv_of_reached (h : Reached P x) : Inv P x :=
  h.invariant (inv_start P) fun _ _ _ hx he hstep => inv_step hlaw hx he hstep

end

end Talk

end PyAgent.Python
