import PyAgent.PythonProtocols
import PyAgent.Streaming.Decoder
import PyAgent.Streaming.Interleave
import Mathlib.Data.List.Indexes

/-!
# The streams of the Python provider agent

`handle_stream` of pa.py is a coroutine: it waits for one field of the stream at a
time, and any number of streams take turns with the Dubbo connections they share. All
streams of one key fetch on one connection; the callback of a request writes the
response to the stream the request came from.
-/

namespace PyAgent.Python
set_option autoImplicit false

open Streaming

/-! ## One stream -/

/-- The field that the coroutine waits for, with what it has read before. -/
inductive Stage where
  | magicNumber
  | interfaceLen
  | interface (len : Nat)
  | methodLen (iface : Bytes)
  | method (iface : Bytes) (len : Nat)
  | ptsLen (iface name : Bytes)
  | pts (iface name : Bytes) (len : Nat)
  | id (key : ChannelKey)
  | pLen (request : ActRequest)
  | parameter (request : ActRequest) (len : Nat)

namespace Stage

def numBytes : Stage → Nat
  | .magicNumber => 2
  | .interfaceLen | .methodLen _ | .ptsLen _ _ | .id _ | .pLen _ => 4
  | .interface len | .method _ len | .pts _ _ len | .parameter _ len => len

/-- `none` is the return at another magic number. -/
def next : Stage → Bytes → Option Stage
  | .magicNumber, data => if data = [0xab, 0xcd] then some .interfaceLen else none
  | .interfaceLen, data => some (.interface (bytes2int data))
  | .interface _, data => some (.methodLen data)
  | .methodLen iface, data => some (.method iface (bytes2int data))
  | .method iface _, data => some (.ptsLen iface data)
  | .ptsLen iface name, data => some (.pts iface name (bytes2int data))
  | .pts iface name _, data => some (.id ⟨iface, name, data⟩)
  | .id key, data => some (.pLen (makeRequest key (bytes2int data)))
  | .pLen request, data => some (.parameter request (bytes2int data))
  | .parameter request _, _ => some (.id request.key)

def key : Stage → Option ChannelKey
  | .id key => some key
  | .pLen request | .parameter request _ => some request.key
  | _ => none

end Stage

/-- What the coroutine does before it waits again. -/
inductive Effect where
  | nothing
  | channel (key : ChannelKey)
  | fetch (request : ActRequest)

def Effect.requests : Effect → List ActRequest
  | .fetch request => [request]
  | _ => []

def Stage.effect : Stage → Bytes → Effect
  | .pts iface name _, data => .channel ⟨iface, name, data⟩
  | .parameter request _, data => .fetch { request with parameter := data }
  | _, _ => .nothing

/-- The coroutine as a decoder of its stream. -/
def streamDecoder : Decoder Stage UInt8 ActRequest where
  need := Stage.numBytes
  take stage data :=
    match stage.next data with
    | some stage' => .took stage' (stage.effect data).requests
    | none => .refused

/-! ## All streams -/

/-- The Dubbo connection of a key and its provider; the callbacks made in `handle_stream` are known
by their stream and the position of their request in it. -/
abbrev Channel := Talk Request DubboReading Response (Nat × Nat)

/-- An accepted stream: what its coroutine waits for, unless it has returned, all bytes that have
come and those not read yet, the requests made of them, and what has been written. -/
structure ActStream where
  stage : Option Stage := some .magicNumber
  arrived : Bytes := []
  buffer : Bytes := []
  requests : List ActRequest := []
  written : Bytes := []

namespace ActStream

def key (s : ActStream) : Option ChannelKey := s.stage.bind Stage.key

/-- The bytes the coroutine gets when it has waited for this. -/
def data (s : ActStream) (stage : Stage) : Bytes := s.buffer.take stage.numBytes

def advance (s : ActStream) (stage : Stage) : ActStream := { s with
  stage := stage.next (s.data stage)
  buffer := s.buffer.drop stage.numBytes
  requests := s.requests ++ (stage.effect (s.data stage)).requests }

def write (s : ActStream) (bs : Bytes) : ActStream := { s with written := s.written ++ bs }

end ActStream

structure Serving where
  dubboChannelMap : ChannelKey → Option Channel := fun _ => none
  streams : List ActStream := []

namespace Serving

def openChannel (channels : ChannelKey → Option Channel) (key : ChannelKey) :
    ChannelKey → Option Channel :=
  match channels key with
  | some _ => channels
  | none => Function.update channels key (some (Talk.start _ _ _ _))

def perform (channels : ChannelKey → Option Channel) (callback : Nat × Nat) :
    Effect → Option (ChannelKey → Option Channel)
  | .nothing => some channels
  | .channel key => some (openChannel channels key)
  | .fetch request => do
    let talk ← channels request.key
    let talk ← talk.step dubboProtocol (.fetch (makeDubboRequest request) callback)
    some (Function.update channels request.key (some talk))

/-- The coroutine of stream `i` goes on, when its bytes are there. -/
def resume (server : Serving) (i : Nat) : Option Serving := do
  let s ← server.streams[i]?
  let stage ← s.stage
  if stage.numBytes ≤ s.buffer.length then
    let effect := stage.effect (s.data stage)
    let channels ← perform server.dubboChannelMap (i, s.requests.length) effect
    some ⟨channels, server.streams.set i (s.advance stage)⟩
  else none

def makeActResponse (dubboResponse : Response) : ActResponse :=
  ⟨dubboResponse.id, dubboResponse.result⟩

/-- `callback` of `handle_stream` -/
def callback (streams : List ActStream) (made : (Nat × Nat) × Response) :
    Option (List ActStream) := do
  let s ← streams[made.1.1]?
  let body ← (makeActResponse made.2).encodeBody
  some (streams.set made.1.1 (s.write body))

inductive Event where
  | accept
  | arrive (i : Nat) (bs : Bytes)
  | resume (i : Nat)
  | dubbo (key : ChannelKey) (e : Talk.Event Request Response (Nat × Nat))

/-- `none` where the event cannot happen or the code raises an exception. -/
def step (server : Serving) : Event → Option Serving
  | .accept => some { server with streams := server.streams ++ [{}] }
  | .arrive i bs => do
    let s ← server.streams[i]?
    some { server with streams := server.streams.set i { s with
      arrived := s.arrived ++ bs
      buffer := s.buffer ++ bs } }
  | .resume i => server.resume i
  | .dubbo _ (.fetch _ _) => none
  | .dubbo key e => do
    let talk ← server.dubboChannelMap key
    let talk' ← talk.step dubboProtocol e
    let streams ← (talk'.conn.called.drop talk.conn.called.length).foldlM callback server.streams
    some ⟨Function.update server.dubboChannelMap key (some talk'), streams⟩

/-- The request that the coroutine of stream `i` fetches when it goes on. -/
def nextFetch (server : Serving) (i : Nat) : Option ActRequest := do
  let s ← server.streams[i]?
  let stage ← s.stage
  match stage.effect (s.data stage) with
  | .fetch request => some request
  | _ => none

/-- What can happen: bytes come on a stream that was accepted, a coroutine that has its bytes goes
on, and so do the Dubbo connections. -/
def Can (server : Serving) : Event → Prop
  | .accept => True
  | .arrive i _ => i < server.streams.length
  | .resume i => ∃ s stage, server.streams[i]? = some s ∧ s.stage = some stage ∧
      stage.numBytes ≤ s.buffer.length
  | .dubbo key e => (∀ r callback, e ≠ .fetch r callback) ∧
      ∃ talk, server.dubboChannelMap key = some talk ∧ Talk.Can dubboProtocol talk e

/-- Requests fit into a Dubbo frame, and the provider sends responses to what it has been asked. -/
def Regular (server : Serving) : Event → Prop
  | .resume i => ∀ request, server.nextFetch i = some request →
      (makeDubboRequest request).encode.isSome
  | .dubbo key e => ∀ talk, server.dubboChannelMap key = some talk →
      Talk.Regular dubboProtocol talk e
  | _ => True

/-- The channel of a new request does not wait for its id, whichever stream the request comes on.
Nothing in the code sees to it: consumer agents choose their ids by themselves. -/
def FreshIds (server : Serving) : Event → Prop
  | .resume i => ∀ request, server.nextFetch i = some request →
      ∀ talk, server.dubboChannelMap request.key = some talk →
        talk.conn.callbacks request.id = none
  | _ => True

def Allowed (server : Serving) (e : Event) : Prop := Regular server e ∧ FreshIds server e

def Reached : Serving → Prop := Runs Allowed step {}

end Serving

/-! ## What one stream asks for -/

/-- All requests that a stream holds, as far as it has come. -/
def readRequests (key : ChannelKey) (stream : Bytes) : List ActRequest :=
  match _h : readRequest key stream with
  | none => []
  | some (request, rest) => request :: readRequests key rest
termination_by stream.length
decreasing_by exact readRequest_length ‹_›

def readStream (stream : Bytes) : List ActRequest :=
  (readKey stream).elim [] fun p => readRequests p.1 p.2

theorem readRequests_none {key : ChannelKey} {stream : Bytes}
    (h : readRequest key stream = none) : readRequests key stream = [] := by
  rw [readRequests]
  split
  · rfl
  · rename_i h'
    cases h.symm.trans h'

theorem readRequests_some {key : ChannelKey} {stream rest : Bytes} {request : ActRequest}
    (h : readRequest key stream = some (request, rest)) :
    readRequests key stream = request :: readRequests key rest := by
  rw [readRequests]
  split
  · rename_i h'
    cases h.symm.trans h'
  · rename_i h'
    obtain ⟨rfl, rfl⟩ := Prod.mk.inj (Option.some.inj (h.symm.trans h'))
    rfl

/-- The loop of `handle_stream` fetches one request after the other. -/
theorem serve_eq_foldlM (key : ChannelKey) (stream : Bytes) (conn : DubboConnection) :
    serve key stream conn =
      (readRequests key stream).foldlM (fun conn request => conn.fetch (makeDubboRequest request))
        conn := by
  induction hn : stream.length using Nat.strong_induction_on generalizing stream conn with
  | _ n ih =>
    cases hrequest : readRequest key stream with
    | none =>
      rw [serve_none hrequest, readRequests_none hrequest]
      rfl
    | some p =>
      obtain ⟨request, rest⟩ := p
      have hlt := readRequest_length hrequest
      rw [serve_some hrequest, readRequests_some hrequest, List.foldlM_cons]
      congr 1
      funext conn'
      exact ih rest.length (by omega) rest conn' rfl

theorem readBytes_none {n : Nat} {us : Bytes} (h : readBytes n us = none) : us.length < n := by
  unfold readBytes at h
  split at h
  · cases h
  · omega

theorem steps_of_readBytes {stage stage' : Stage} {us data rest : Bytes} {os : List ActRequest}
    (hread : readBytes stage.numBytes us = some (data, rest))
    (htake : streamDecoder.take stage data = .took stage' os) :
    streamDecoder.Steps stage us os stage' rest := by
  unfold readBytes at hread
  split at hread
  · rename_i hle
    obtain ⟨rfl, rfl⟩ := Prod.mk.inj (Option.some.inj hread)
    exact .single hle htake
  · cases hread

/-- The coroutine comes to rest, for more bytes or for good, having made these requests. -/
def Rests (stage : Stage) (us : Bytes) (os : List ActRequest) : Prop :=
  ∃ stage' us', streamDecoder.Steps stage us os stage' us' ∧
    (streamDecoder.Waits stage' us' ∨ streamDecoder.Refuses stage' us')

theorem rests_of_steps {stage stage' : Stage} {us us' : Bytes} {os os' : List ActRequest}
    (h : streamDecoder.Steps stage us os stage' us') (h' : Rests stage' us' os') :
    Rests stage us (os ++ os') := by
  obtain ⟨stage'', us'', hsteps, hrest⟩ := h'
  exact ⟨stage'', us'', h.trans hsteps, hrest⟩

theorem rests_of_readBytes {stage : Stage} {us : Bytes}
    (h : readBytes stage.numBytes us = none) : Rests stage us [] :=
  ⟨stage, us, .refl _ _, Or.inl (readBytes_none h)⟩

theorem Rests.isPrefix {stage stage₁ : Stage} {us us₁ : Bytes} {os os₁ : List ActRequest}
    (h : Rests stage us os) (h₁ : streamDecoder.Steps stage us os₁ stage₁ us₁) : os₁ <+: os := by
  obtain ⟨stage', us', hsteps, hrest⟩ := h
  rcases h₁.linear hsteps with ⟨os₂, rfl, _⟩ | ⟨os₂, rfl, hmore⟩
  · exact List.prefix_append _ _
  · rcases hrest with hwaits | hrefuses
    · rw [(hwaits.stuck hmore).1, List.append_nil]
    · rw [(hrefuses.stuck hmore).1, List.append_nil]

theorem Rests.eq_of_waits {stage stage₁ : Stage} {us us₁ : Bytes} {os os₁ : List ActRequest}
    (h : Rests stage us os) (h₁ : streamDecoder.Steps stage us os₁ stage₁ us₁)
    (hwaits : streamDecoder.Waits stage₁ us₁) : os₁ = os := by
  have hprefix := h.isPrefix h₁
  obtain ⟨stage', us', hsteps, _⟩ := h
  rcases h₁.linear hsteps with ⟨os₂, hos, hmore⟩ | ⟨os₂, hos, _⟩
  · rw [hos, (hwaits.stuck hmore).1, List.append_nil]
  · apply hprefix.eq_of_length_le
    rw [hos, List.length_append]
    omega

/-- Two stages along a length and the field it belongs to. -/
structure SizedField (s₁ : Stage) (s₂ : Nat → Stage) (s₃ : Bytes → Stage)
    (out : Bytes → List ActRequest) : Prop where
  needLen : s₁.numBytes = 4
  takeLen : ∀ data, streamDecoder.take s₁ data = .took (s₂ (bytes2int data)) []
  needField : ∀ n, (s₂ n).numBytes = n
  takeField : ∀ n data, streamDecoder.take (s₂ n) data = .took (s₃ data) (out data)

section
variable {s₁ : Stage} {s₂ : Nat → Stage} {s₃ : Bytes → Stage} {out : Bytes → List ActRequest}
  (h : SizedField s₁ s₂ s₃ out) {us : Bytes}
include h

theorem SizedField.steps {field rest : Bytes} (hread : readSized us = some (field, rest)) :
    streamDecoder.Steps s₁ us (out field) (s₃ field) rest := by
  obtain ⟨⟨len, us'⟩, hlen, hfield⟩ := Option.bind_eq_some_iff.mp hread
  have hfirst : streamDecoder.Steps s₁ us [] (s₂ (bytes2int len)) us' :=
    steps_of_readBytes (by rw [h.needLen]; exact hlen) (h.takeLen len)
  have hsecond : streamDecoder.Steps (s₂ (bytes2int len)) us' (out field) (s₃ field) rest :=
    steps_of_readBytes (by rw [h.needField]; exact hfield) (h.takeField _ field)
  exact hfirst.trans hsecond

/-- The coroutine is still inside the field, or it has read it. -/
theorem SizedField.split {stage : Stage} {us' : Bytes} {os : List ActRequest}
    (hsteps : streamDecoder.Steps s₁ us os stage us') :
    stage = s₁ ∨ (∃ n, stage = s₂ n) ∨ ∃ field rest os', readSized us = some (field, rest) ∧
      os = out field ++ os' ∧ streamDecoder.Steps (s₃ field) rest os' stage us' := by
  cases hsteps with
  | refl => exact Or.inl rfl
  | @head _ s' _ _ _ os₁ os₂ hn ht hmore =>
    rw [h.takeLen] at ht
    obtain ⟨rfl, rfl⟩ := Verdict.took.inj ht
    have hneed : streamDecoder.need s₁ = 4 := h.needLen
    rw [hneed] at hn hmore
    cases hmore with
    | refl => exact Or.inr (Or.inl ⟨_, rfl⟩)
    | @head _ s'' _ _ _ os₃ os₄ hn' ht' hmore' =>
      have hneed' : streamDecoder.need (s₂ (bytes2int (us.take 4))) = bytes2int (us.take 4) :=
        h.needField _
      rw [hneed'] at hn' ht' hmore'
      rw [h.takeField] at ht'
      obtain ⟨rfl, rfl⟩ := Verdict.took.inj ht'
      refine Or.inr (Or.inr ⟨_, _, os₄, ?_, rfl, hmore'⟩)
      have hlen : readBytes 4 us = some (us.take 4, us.drop 4) := if_pos hn
      rw [readSized, hlen]
      exact if_pos hn'

theorem SizedField.rests (hread : readSized us = none) : Rests s₁ us [] := by
  cases hlen : readBytes 4 us with
  | none => exact rests_of_readBytes (by rw [h.needLen, hlen])
  | some p =>
    obtain ⟨len, us'⟩ := p
    have hfirst : streamDecoder.Steps s₁ us [] (s₂ (bytes2int len)) us' :=
      steps_of_readBytes (by rw [h.needLen]; exact hlen) (h.takeLen len)
    have hfield : readBytes (bytes2int len) us' = none := by
      rw [readSized, hlen] at hread
      exact hread
    exact rests_of_steps hfirst (rests_of_readBytes (by rw [h.needField]; exact hfield))

end

theorem interface_field :
    SizedField .interfaceLen .interface .methodLen fun _ => [] :=
  ⟨rfl, fun _ => rfl, fun _ => rfl, fun _ _ => rfl⟩

theorem method_field (iface : Bytes) :
    SizedField (.methodLen iface) (.method iface) (.ptsLen iface) fun _ => [] :=
  ⟨rfl, fun _ => rfl, fun _ => rfl, fun _ _ => rfl⟩

theorem pts_field (iface name : Bytes) : SizedField (.ptsLen iface name) (.pts iface name)
    (fun pts => .id ⟨iface, name, pts⟩) fun _ => [] :=
  ⟨rfl, fun _ => rfl, fun _ => rfl, fun _ _ => rfl⟩

theorem parameter_field (request : ActRequest) : SizedField (.pLen request) (.parameter request)
    (fun _ => .id request.key) fun parameter => [{ request with parameter := parameter }] :=
  ⟨rfl, fun _ => rfl, fun _ => rfl, fun _ _ => rfl⟩

theorem readRequest_steps {key : ChannelKey} {us rest : Bytes} {request : ActRequest}
    (h : readRequest key us = some (request, rest)) :
    streamDecoder.Steps (.id key) us [request] (.id key) rest := by
  obtain ⟨⟨id, us'⟩, hid, h⟩ := Option.bind_eq_some_iff.mp h
  obtain ⟨⟨parameter, us''⟩, hparameter, h⟩ := Option.bind_eq_some_iff.mp h
  obtain ⟨rfl, rfl⟩ := Prod.mk.inj (Option.some.inj h)
  have hfirst : streamDecoder.Steps (.id key) us [] (.pLen (makeRequest key (bytes2int id))) us' :=
    steps_of_readBytes hid rfl
  exact hfirst.trans ((parameter_field _).steps hparameter)

theorem readRequest_rests {key : ChannelKey} {us : Bytes} (h : readRequest key us = none) :
    Rests (.id key) us [] := by
  cases hid : readBytes 4 us with
  | none => exact rests_of_readBytes hid
  | some p =>
    obtain ⟨id, us'⟩ := p
    have hfirst : streamDecoder.Steps (.id key) us []
        (.pLen (makeRequest key (bytes2int id))) us' := steps_of_readBytes hid rfl
    apply rests_of_steps hfirst
    apply (parameter_field _).rests
    rw [readRequest, hid] at h
    cases hparameter : readSized us' with
    | none => rfl
    | some p => simp [hparameter] at h

theorem readRequests_rests (key : ChannelKey) (us : Bytes) :
    Rests (.id key) us (readRequests key us) := by
  induction hn : us.length using Nat.strong_induction_on generalizing us with
  | _ n ih =>
    cases hrequest : readRequest key us with
    | none =>
      rw [readRequests_none hrequest]
      exact readRequest_rests hrequest
    | some p =>
      obtain ⟨request, rest⟩ := p
      have hlt := readRequest_length hrequest
      rw [readRequests_some hrequest]
      exact rests_of_steps (readRequest_steps hrequest) (ih rest.length (by omega) rest rfl)

theorem readKey_steps {key : ChannelKey} {us rest : Bytes} (h : readKey us = some (key, rest)) :
    streamDecoder.Steps .magicNumber us [] (.id key) rest := by
  obtain ⟨⟨magicNumber, us₁⟩, hmagic, h⟩ := Option.bind_eq_some_iff.mp h
  dsimp only at h
  by_cases heq : magicNumber = [0xab, 0xcd]
  · rw [if_pos heq] at h
    obtain ⟨⟨iface, us₂⟩, hinterface, h⟩ := Option.bind_eq_some_iff.mp h
    obtain ⟨⟨name, us₃⟩, hmethod, h⟩ := Option.bind_eq_some_iff.mp h
    obtain ⟨⟨pts, us₄⟩, hpts, h⟩ := Option.bind_eq_some_iff.mp h
    obtain ⟨rfl, rfl⟩ := Prod.mk.inj (Option.some.inj h)
    have htake : streamDecoder.take .magicNumber magicNumber = .took .interfaceLen [] := by
      simp only [streamDecoder, Stage.next, if_pos heq, Stage.effect, Effect.requests]
    have hfirst : streamDecoder.Steps .magicNumber us [] .interfaceLen us₁ :=
      steps_of_readBytes hmagic htake
    have hsecond := hfirst.trans (interface_field.steps hinterface)
    have hthird := hsecond.trans ((method_field iface).steps hmethod)
    exact hthird.trans ((pts_field iface name).steps hpts)
  · rw [if_neg heq] at h
    cases h

theorem readKey_rests {us : Bytes} (h : readKey us = none) : Rests .magicNumber us [] := by
  cases hmagic : readBytes 2 us with
  | none => exact rests_of_readBytes hmagic
  | some p =>
    obtain ⟨magicNumber, us₁⟩ := p
    by_cases heq : magicNumber = [0xab, 0xcd]
    · have htake : streamDecoder.take .magicNumber magicNumber = .took .interfaceLen [] := by
        simp only [streamDecoder, Stage.next, if_pos heq, Stage.effect, Effect.requests]
      have hfirst : streamDecoder.Steps .magicNumber us [] .interfaceLen us₁ :=
        steps_of_readBytes hmagic htake
      cases hinterface : readSized us₁ with
      | none => exact rests_of_steps hfirst (interface_field.rests hinterface)
      | some p =>
        obtain ⟨iface, us₂⟩ := p
        have hsecond := hfirst.trans (interface_field.steps hinterface)
        cases hmethod : readSized us₂ with
        | none => exact rests_of_steps hsecond ((method_field iface).rests hmethod)
        | some p =>
          obtain ⟨name, us₃⟩ := p
          have hthird := hsecond.trans ((method_field iface).steps hmethod)
          cases hpts : readSized us₃ with
          | none => exact rests_of_steps hthird ((pts_field iface name).rests hpts)
          | some p => simp [readKey, hmagic, heq, hinterface, hmethod, hpts] at h
    · refine ⟨.magicNumber, us, .refl _ _, Or.inr ?_⟩
      unfold readBytes at hmagic
      split at hmagic
      · rename_i hle
        obtain ⟨rfl, rfl⟩ := Prod.mk.inj (Option.some.inj hmagic)
        refine ⟨hle, ?_⟩
        simp only [streamDecoder, Stage.numBytes, Stage.next, if_neg heq]
      · cases hmagic

theorem readStream_rests (us : Bytes) : Rests .magicNumber us (readStream us) := by
  unfold readStream
  cases hkey : readKey us with
  | none => exact readKey_rests hkey
  | some p => exact rests_of_steps (readKey_steps hkey) (readRequests_rests p.1 p.2)

/-! ## Stages, keys and ids -/

namespace Stage

/-- Ids are numbers of four bytes. -/
def Wf : Stage → Prop
  | .pLen request | .parameter request _ => request.id < 4294967296
  | _ => True

variable {stage stage' : Stage} {data : Bytes}

theorem next_bind_key (stage : Stage) (data : Bytes) : (stage.next data).bind key =
    match stage.effect data with
    | .channel key => some key
    | _ => stage.key := by
  cases stage with
  | magicNumber =>
    simp only [next]
    split <;> rfl
  | _ => rfl

theorem key_of_channel {key : ChannelKey} (h : stage.effect data = .channel key) :
    stage.key = none := by
  cases stage <;> first | rfl | cases h

theorem key_of_fetch {request : ActRequest} (h : stage.effect data = .fetch request) :
    stage.key = some request.key := by
  cases stage with
  | parameter r len =>
    obtain rfl := Effect.fetch.inj h
    rfl
  | _ => cases h

theorem next_of_fetch {request : ActRequest} (h : stage.effect data = .fetch request) :
    stage.next data = some (.id request.key) := by
  cases stage with
  | parameter r len =>
    obtain rfl := Effect.fetch.inj h
    rfl
  | _ => cases h

theorem Wf.next (hstage : stage.Wf) (hlen : data.length = stage.numBytes)
    (h : stage.next data = some stage') : stage'.Wf := by
  cases stage with
  | magicNumber =>
    simp only [Stage.next, Option.ite_none_right_eq_some, Option.some.injEq] at h
    obtain ⟨_, rfl⟩ := h
    trivial
  | id key =>
    obtain rfl := Option.some.inj h
    have hlt := bytes2int_lt data
    rw [hlen] at hlt
    exact hlt
  | pLen request =>
    obtain rfl := Option.some.inj h
    exact hstage
  | _ =>
    obtain rfl := Option.some.inj h
    trivial

theorem Wf.fetch (hstage : stage.Wf) {request : ActRequest}
    (h : stage.effect data = .fetch request) : request.id < 4294967296 := by
  cases stage with
  | parameter r len =>
    obtain rfl := Effect.fetch.inj h
    exact hstage
  | _ => cases h

end Stage

theorem Effect.mem_requests {effect : Effect} {request : ActRequest} :
    request ∈ effect.requests ↔ effect = .fetch request := by
  cases effect <;> simp [requests, eq_comm]

theorem took_iff {stage stage' : Stage} {data : Bytes} {os : List ActRequest} :
    streamDecoder.take stage data = .took stage' os ↔
      stage.next data = some stage' ∧ (stage.effect data).requests = os := by
  simp only [streamDecoder]
  cases hnext : stage.next data <;> simp

/-- All requests of a stream are for its key. -/
theorem steps_key {stage stage' : Stage} {us us' : Bytes} {os : List ActRequest}
    (h : streamDecoder.Steps stage us os stage' us') :
    (∀ key, stage.key = some key → stage'.key = some key) ∧
      ∀ request ∈ os, stage'.key = some request.key := by
  induction h with
  | refl => exact ⟨fun _ h => h, by simp⟩
  | @head stage stage₁ stage' us us' os os' hn ht _ ih =>
    obtain ⟨hnext, rfl⟩ := took_iff.mp ht
    obtain ⟨hkeeps, hrequests⟩ := ih
    have hkey := Stage.next_bind_key stage (us.take (streamDecoder.need stage))
    rw [show stage.next _ = some stage₁ from hnext, Option.bind_some] at hkey
    have hfirst : ∀ key, stage.key = some key → stage₁.key = some key := by
      intro key hsome
      rw [hkey]
      cases heffect : stage.effect (us.take (streamDecoder.need stage)) with
      | channel key' =>
        rw [Stage.key_of_channel heffect] at hsome
        cases hsome
      | _ => exact hsome
    refine ⟨fun key hsome => hkeeps key (hfirst key hsome), ?_⟩
    intro request hmem
    rcases List.mem_append.mp hmem with hmem | hmem
    · have heffect := Effect.mem_requests.mp hmem
      exact hkeeps _ (hfirst _ (Stage.key_of_fetch heffect))
    · exact hrequests request hmem

theorem steps_ids {stage stage' : Stage} {us us' : Bytes} {os : List ActRequest}
    (h : streamDecoder.Steps stage us os stage' us') (hstage : stage.Wf) :
    ∀ request ∈ os, request.id < 4294967296 := by
  induction h with
  | refl => simp
  | @head stage stage₁ stage' us us' os os' hn ht _ ih =>
    obtain ⟨hnext, rfl⟩ := took_iff.mp ht
    have hlen : (us.take (streamDecoder.need stage)).length = stage.numBytes :=
      List.length_take_of_le hn
    intro request hmem
    rcases List.mem_append.mp hmem with hmem | hmem
    · exact hstage.fetch (Effect.mem_requests.mp hmem)
    · exact ih (hstage.next hlen hnext) request hmem

/-- A coroutine that has a key has read it from its stream. -/
theorem readKey_of_steps {key : ChannelKey} {us us' : Bytes} {os : List ActRequest} {stage : Stage}
    (hsteps : streamDecoder.Steps .magicNumber us os stage us') (hkey : stage.key = some key) :
    ∃ rest, readKey us = some (key, rest) := by
  cases hsteps with
  | refl => cases hkey
  | @head _ s' _ _ _ os₁ os₂ hn ht hmore =>
    have hmagic : us.take 2 = [0xab, 0xcd] ∧ s' = .interfaceLen := by
      simp only [streamDecoder, Stage.numBytes, Stage.next] at ht
      split at ht
      · rename_i hnext
        split at hnext
        · rename_i heq
          obtain rfl := Option.some.inj hnext
          exact ⟨heq, (Verdict.took.inj ht).1.symm⟩
        · cases hnext
      · cases ht
    obtain ⟨hmagic, rfl⟩ := hmagic
    have hneed : streamDecoder.need .magicNumber = 2 := rfl
    rw [hneed] at hn hmore
    rcases interface_field.split hmore with rfl | ⟨n, rfl⟩ | ⟨iface, us₂, _, hinterface, _, hmore⟩
    · cases hkey
    · cases hkey
    rcases (method_field iface).split hmore with
      rfl | ⟨n, rfl⟩ | ⟨name, us₃, _, hmethod, _, hmore⟩
    · cases hkey
    · cases hkey
    rcases (pts_field iface name).split hmore with rfl | ⟨n, rfl⟩ | ⟨pts, us₄, _, hpts, _, hmore⟩
    · cases hkey
    · cases hkey
    have hkey' := (steps_key hmore).1 _ rfl
    rw [hkey, Option.some.injEq] at hkey'
    subst hkey'
    refine ⟨us₄, ?_⟩
    simp only [readKey, readBytes, if_pos hn, hmagic, if_true, Option.bind_eq_bind,
      Option.bind_some, hinterface, hmethod, hpts]

end PyAgent.Python
