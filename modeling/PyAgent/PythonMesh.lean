import PyAgent.PythonServerRuns
import PyAgent.Streaming.Remote

/-!
# The mesh of the Python agents

`PAConnection`s of any number of consumer agents, the provider agent they lead to, and
the Dubbo connections of that. Each connection is one stream of the provider agent; what
is written at one end arrives at the other in order and in pieces of any size.
-/

namespace PyAgent.Python
set_option autoImplicit false

open Streaming

/-- A connection of a consumer agent: the key it was opened for and the state of its calls. -/
abbrev Caller (γ : Type) := ChannelKey × Talk ActRequest PAReading ActResponse γ

structure PyMesh (γ : Type) where
  callers : List (Caller γ) := []
  agent : Serving := {}

namespace PyMesh
variable {γ : Type}

inductive Event (γ : Type) where
  | create (key : ChannelKey)
  | connect (i : Nat)
  | fetch (i : Nat) (request : ActRequest) (callback : γ)
  | arrive (i n : Nat)
  | resume (i : Nat)
  | dubbo (key : ChannelKey) (e : Talk.Event Request Response (Nat × Nat))
  | receive (i n : Nat)
  | readCallback (i : Nat)

/-- The response that `callback` writes, at the other end of the stream. -/
def act (made : (Nat × Nat) × Response) : Reply ActResponse :=
  ⟨made.1.2, Serving.makeActResponse made.2, Serving.answer made⟩

/-- The callbacks that have been called on the connection of a key. -/
def called (channels : ChannelKey → Option Channel) (key : ChannelKey) :
    List ((Nat × Nat) × Response) :=
  (channels key).elim [] fun talk => talk.conn.called

def written (agent : Serving) (i : Nat) : Bytes := agent.streams[i]?.elim [] ActStream.written

/-- The bytes are those the provider agent has written to stream `i`; `replies` says what they
are. -/
def hear (x : Talk ActRequest PAReading ActResponse γ) (bytes : Bytes)
    (replies : List (Reply ActResponse)) : Talk ActRequest PAReading ActResponse γ :=
  { x with wire := x.wire ++ bytes, replies := x.replies ++ replies }

def stepCaller (m : PyMesh γ) (i : Nat) (e : Talk.Event ActRequest ActResponse γ) :
    Option (PyMesh γ) := do
  let (key, x) ← m.callers[i]?
  let x ← x.step (paProtocol key) e
  some { m with callers := m.callers.set i (key, x) }

/-- `none` where the event cannot happen or the code raises an exception. -/
def step (m : PyMesh γ) : Event γ → Option (PyMesh γ)
  | .create key => do
    let agent ← m.agent.step .accept
    some ⟨m.callers ++ [(key, Talk.start _ _ _ _)], agent⟩
  | .connect i => m.stepCaller i .connect
  | .fetch i request callback => m.stepCaller i (.fetch request callback)
  | .arrive i n => do
    let (_, x) ← m.callers[i]?
    let s ← m.agent.streams[i]?
    let agent ← m.agent.step (.arrive i ((x.conn.stream.drop s.arrived.length).take n))
    some { m with agent := agent }
  | .resume i => do
    let agent ← m.agent.step (.resume i)
    some { m with agent := agent }
  | .dubbo key e => do
    let agent ← m.agent.step (.dubbo key e)
    let made := (called agent.dubboChannelMap key).drop (called m.agent.dubboChannelMap key).length
    some ⟨m.callers.mapIdx fun i (key, x) => (key, hear x
      ((written agent i).drop (written m.agent i).length)
      ((ownedBy Serving.addressee i made).map act)), agent⟩
  | .receive i n => m.stepCaller i (.receive n)
  | .readCallback i => m.stepCaller i .readCallback

def CanCaller (m : PyMesh γ) (i : Nat) (e : Talk.Event ActRequest ActResponse γ) : Prop :=
  ∃ key x, m.callers[i]? = some (key, x) ∧ Talk.Can (paProtocol key) x e

/-- What can happen: what can happen to a connection that is there, or to the provider agent. -/
def Can (m : PyMesh γ) : Event γ → Prop
  | .create _ => True
  | .connect i => m.CanCaller i .connect
  | .fetch i request callback => m.CanCaller i (.fetch request callback)
  | .arrive i _ => i < m.callers.length
  | .resume i => Serving.Can m.agent (.resume i)
  | .dubbo key e => Serving.Can m.agent (.dubbo key e)
  | .receive i n => m.CanCaller i (.receive n)
  | .readCallback i => m.CanCaller i .readCallback

/-- Keys and requests fit into their frames, the requests fetched on a connection are for its key,
and the provider sends responses to what it is asked. -/
def Regular (serves : Bytes → Bytes → Prop) (m : PyMesh γ) : Event γ → Prop
  | .create key => (encodeActKey key).isSome
  | .fetch i request _ => ∀ c, m.callers[i]? = some c →
      request.key = c.1 ∧ request.encodeBody.isSome ∧ (makeDubboRequest request).encode.isSome
  | .dubbo key (.reply r) => ∀ talk, m.agent.dubboChannelMap key = some talk →
      ∀ call, talk.issued[r.ticket]? = some call →
        dubboProtocol.Frame call.1.id r.value r.bytes ∧ serves call.1.body r.value.result
  | _ => True

/-- No connection for the same key waits for the id of a new request. Nothing in the code sees to
it: an id is whatever `random.randint` has drawn for it. -/
def FreshIds (m : PyMesh γ) : Event γ → Prop
  | .fetch i request _ => ∀ c, m.callers[i]? = some c →
      ∀ c' ∈ m.callers, c'.1 = c.1 → c'.2.conn.callbacks request.id = none
  | _ => True

def Allowed (serves : Bytes → Bytes → Prop) (m : PyMesh γ) (e : Event γ) : Prop :=
  Regular serves m e ∧ FreshIds m e

def Reached (serves : Bytes → Bytes → Prop) : PyMesh γ → Prop := Runs (Allowed serves) step {}

/-! ## What a connection sends -/

theorem readKey_encode {key : ChannelKey} {bs : Bytes} (h : encodeActKey key = some bs)
    (rest : Bytes) : readKey ([0xab, 0xcd] ++ bs ++ rest) = some (key, rest) := by
  obtain ⟨⟨hinterface, hmethod, hpts⟩, rfl⟩ := encodeActKey_eq_some_iff.mp h
  have hmagic : ∀ us, readBytes 2 ([0xab, 0xcd] ++ us) = some ([0xab, 0xcd], us) :=
    readBytes_append rfl
  have hsized : ∀ {field : Bytes}, field.length < 4294967296 → ∀ us,
      readSized (writeInt field.length ++ (field ++ us)) = some (field, us) := by
    intro field hlt us
    rw [← List.append_assoc]
    exact readSized_append hlt us
  simp only [readKey, List.append_assoc, hmagic, hsized hinterface, hsized hmethod, hsized hpts,
    Option.bind_eq_bind, Option.bind_some, if_pos trivial]

theorem readRequest_encode {key : ChannelKey} {request : ActRequest} {bs : Bytes}
    (hkey : request.key = key) (h : request.encodeBody = some bs) (rest : Bytes) :
    readRequest key (bs ++ rest) = some (request, rest) := by
  obtain ⟨⟨hid, hlen⟩, rfl⟩ := encodeBody_eq_some_iff.mp h
  have hfirst : ∀ us, readBytes 4 (writeInt request.id ++ us) = some (writeInt request.id, us) :=
    fun us => readBytes_append (writeInt_length _) us
  subst hkey
  rw [List.append_assoc]
  simp only [readRequest, hfirst, Option.bind_eq_bind, Option.bind_some, readSized_append hlen,
    bytes2int_writeInt hid]
  rfl

/-- The provider agent reads what a connection writes as the requests that were fetched on it. -/
theorem requests_steps {key : ChannelKey} {requests : List ActRequest} {bodies : List Bytes}
    (hkeys : ∀ request ∈ requests, request.key = key)
    (hbodies : requests.mapM ActRequest.encodeBody = some bodies) :
    streamDecoder.Steps (.id key) bodies.flatten requests (.id key) [] := by
  induction requests generalizing bodies with
  | nil =>
    obtain rfl := Option.some.inj hbodies
    exact .refl _ _
  | cons request requests ih =>
    rw [List.mapM_cons] at hbodies
    obtain ⟨body, hbody, hbodies⟩ := Option.bind_eq_some_iff.mp hbodies
    obtain ⟨rest, hrest, hbodies⟩ := Option.bind_eq_some_iff.mp hbodies
    obtain rfl := Option.some.inj hbodies
    have hfirst := readRequest_steps
      (readRequest_encode (hkeys request List.mem_cons_self) hbody rest.flatten)
    exact hfirst.trans (ih (fun r hr => hkeys r (List.mem_cons_of_mem _ hr)) hrest)

section
variable {key : ChannelKey} {x : Talk ActRequest PAReading ActResponse γ}

/-- A connection writes nothing, or all of it is read as its greeting and its requests. -/
theorem sent_steps (hx : Talk.Inv (paProtocol key) x)
    (hkeys : ∀ call ∈ x.issued, call.1.key = key) :
    ∃ written, x.issued.map Prod.fst = written ++ x.conn.queue ∧
      (x.conn.connected = false ∧ written = [] ∧ x.conn.stream = [] ∨
        x.conn.connected = true ∧ x.conn.queue = [] ∧
          streamDecoder.Steps .magicNumber x.conn.stream written (.id key) []) := by
  obtain ⟨written, hsplit, hoff | ⟨hon, hqueue, greeting, bodies, hgreeting, hbodies, hstream⟩⟩ :=
    hx.sent
  · exact ⟨written, hsplit, Or.inl hoff⟩
  · rw [paProtocol_greeting] at hgreeting
    obtain ⟨keyBytes, hkeyBytes, rfl⟩ := Option.map_eq_some_iff.mp hgreeting
    have hwritten : ∀ request ∈ written, request.key = key := by
      intro request hmem
      have hissued : request ∈ x.issued.map Prod.fst := by
        rw [hsplit]
        exact List.mem_append_left _ hmem
      obtain ⟨call, hcall, rfl⟩ := List.mem_map.mp hissued
      exact hkeys call hcall
    have hwhole := (readKey_steps (readKey_encode hkeyBytes bodies.flatten)).trans
      (requests_steps hwritten hbodies)
    rw [← hstream] at hwhole
    exact ⟨written, hsplit, Or.inr ⟨hon, hqueue, hwhole⟩⟩

/-- What the provider agent has made of the beginning of what a connection writes: it has come to
the end, or it goes on from where it is. -/
theorem requests_initial (hx : Talk.Inv (paProtocol key) x)
    (hkeys : ∀ call ∈ x.issued, call.1.key = key) {us us' : Bytes} {requests : List ActRequest}
    {stage : Stage} (hsteps : streamDecoder.Steps .magicNumber us requests stage us')
    (hus : us <+: x.conn.stream) :
    ∃ written, x.issued.map Prod.fst = written ++ x.conn.queue ∧
      (written ≠ [] → x.conn.connected = true) ∧
      (stage = .magicNumber ∧ us' = [] ∧ requests = [] ∨
        ∃ more os, written = requests ++ os ∧
          streamDecoder.Steps stage (us' ++ more) os (.id key) []) := by
  obtain ⟨written, hsplit, ⟨_, hnone, hstream⟩ | ⟨hon, _, hwhole⟩⟩ := sent_steps hx hkeys
  · rw [hstream] at hus
    obtain rfl := List.prefix_nil.mp hus
    have hwaits : streamDecoder.Waits .magicNumber [] := Nat.zero_lt_succ 1
    obtain ⟨rfl, rfl, rfl⟩ := hwaits.stuck hsteps
    exact ⟨written, hsplit, fun hne => absurd hnone hne, Or.inl ⟨rfl, rfl, rfl⟩⟩
  · obtain ⟨more, hmore⟩ := hus
    have hsteps' := hsteps.append more
    rw [hmore] at hsteps'
    refine ⟨written, hsplit, fun _ => hon, Or.inr ?_⟩
    rcases hsteps'.linear hwhole with ⟨os, hos, hrest⟩ | ⟨os, hos, hrest⟩
    · exact ⟨more, os, hos, hrest⟩
    · have hwaits : streamDecoder.Waits (.id key) [] := Nat.zero_lt_succ 3
      obtain ⟨rfl, rfl, hnil⟩ := hwaits.stuck hrest
      refine ⟨more, [], by simpa using hos.symm, ?_⟩
      rw [hnil]
      exact .refl _ _

end

/-! ## Both ends together -/

/-- A call that waits on connection `i`, for this key and under this id. -/
def Waits (m : PyMesh γ) (key : ChannelKey) (id i j : Nat) : Prop :=
  ∃ x call, m.callers[i]? = some (key, x) ∧ x.ledger.Open j call ∧ call.1.id = id

/-- What has arrived at the provider agent was sent by the connection, and what the connection has
been sent are the responses to its own calls; for one key, calls that wait have different ids. -/
structure Inv (serves : Bytes → Bytes → Prop) (m : PyMesh γ) : Prop where
  agent : Serving.Inv m.agent
  length : m.agent.streams.length = m.callers.length
  talks : ∀ (i : Nat) key x, m.callers[i]? = some (key, x) → Talk.Reached (paProtocol key) x
  keys : ∀ (i : Nat) key x, m.callers[i]? = some (key, x) → ∀ call ∈ x.issued,
    call.1.key = key ∧ (makeDubboRequest call.1).encode.isSome
  arrived : ∀ (i : Nat) key x s, m.callers[i]? = some (key, x) → m.agent.streams[i]? = some s →
    s.arrived <+: x.conn.stream
  replies : ∀ (i : Nat) key x, m.callers[i]? = some (key, x) → x.replies =
    (ownedBy Serving.addressee i (called m.agent.dubboChannelMap key)).map act
  distinct : ∀ key id i j i' j', Waits m key id i j → Waits m key id i' j' → i = i' ∧ j = j'
  serves : ∀ key talk, m.agent.dubboChannelMap key = some talk → ∀ r ∈ talk.replies, ∀ call,
    talk.issued[r.ticket]? = some call → serves call.1.body r.value.result
  fits : ∀ (i : Nat) key x, m.callers[i]? = some (key, x) → (encodeActKey key).isSome
  running : ∀ (i : Nat) s, m.agent.streams[i]? = some s → s.stage.isSome

theorem inv_start (serves : Bytes → Bytes → Prop) : Inv serves ({} : PyMesh γ) :=
  ⟨Serving.inv_start, rfl, by simp, by simp, by simp, by simp, by simp [Waits], by simp, by simp,
    by simp⟩

section
variable {serves : Bytes → Bytes → Prop} {m m' : PyMesh γ} {i : Nat} {key : ChannelKey}
  {x x' : Talk ActRequest PAReading ActResponse γ} {s : ActStream}

theorem Inv.caller_inv (hm : Inv serves m) (hc : m.callers[i]? = some (key, x)) :
    Talk.Inv (paProtocol key) x :=
  Talk.inv_of_reached (paProtocol_lawful key) (hm.talks i key x hc)

theorem Inv.exists_stream (hm : Inv serves m) (hc : m.callers[i]? = some (key, x)) :
    ∃ s, m.agent.streams[i]? = some s := by
  have hlt := (List.getElem?_eq_some_iff.mp hc).1
  rw [← hm.length] at hlt
  exact ⟨_, List.getElem?_eq_getElem hlt⟩

theorem Inv.exists_caller (hm : Inv serves m) (hs : m.agent.streams[i]? = some s) :
    ∃ key x, m.callers[i]? = some (key, x) := by
  have hlt := (List.getElem?_eq_some_iff.mp hs).1
  rw [hm.length] at hlt
  exact ⟨_, _, List.getElem?_eq_getElem hlt⟩

theorem Inv.key_eq (hm : Inv serves m) (hc : m.callers[i]? = some (key, x))
    (hs : m.agent.streams[i]? = some s) {key' : ChannelKey} (hkey : s.key = some key') :
    key' = key := by
  obtain ⟨stage, hstage, hkey⟩ := Option.bind_eq_some_iff.mp hkey
  obtain ⟨_, _, _, ⟨rfl, _⟩ | ⟨_, _, _, hrest⟩⟩ := requests_initial (hm.caller_inv hc)
    (fun call hcall => (hm.keys i key x hc call hcall).1)
    ((hm.agent.fetches.streams i s hs).reads stage hstage) (hm.arrived i key x s hc hs)
  · cases hkey
  · exact (Option.some.inj ((steps_key hrest).1 key' hkey)).symm

/-- The coroutine never returns: a connection begins with the magic number. -/
theorem Inv.next_isSome (hm : Inv serves m) (hc : m.callers[i]? = some (key, x))
    (hs : m.agent.streams[i]? = some s) {stage : Stage} (hstage : s.stage = some stage)
    (hle : stage.numBytes ≤ s.buffer.length) : (stage.next (s.data stage)).isSome := by
  obtain ⟨_, _, _, ⟨rfl, hnil, _⟩ | ⟨more, _, _, hrest⟩⟩ := requests_initial (hm.caller_inv hc)
    (fun call hcall => (hm.keys i key x hc call hcall).1)
    ((hm.agent.fetches.streams i s hs).reads stage hstage) (hm.arrived i key x s hc hs)
  · rw [hnil] at hle
    cases hle
  · have hdata : (s.buffer ++ more).take stage.numBytes = s.data stage :=
      List.take_append_of_le_length hle
    generalize s.buffer ++ more = us at hrest hdata
    cases hrest with
    | refl => rfl
    | head _ ht =>
      obtain ⟨hnext, _⟩ := took_iff.mp ht
      rw [show us.take (streamDecoder.need stage) = s.data stage from hdata] at hnext
      rw [hnext]
      rfl

/-- A request that the provider agent has read is the one that was fetched. -/
theorem Inv.call_of_steps (hm : Inv serves m) (hc : m.callers[i]? = some (key, x))
    (hs : m.agent.streams[i]? = some s) {requests : List ActRequest} {stage : Stage} {us : Bytes}
    (hsteps : streamDecoder.Steps .magicNumber s.arrived requests stage us) {j : Nat}
    {request : ActRequest} (hj : requests[j]? = some request) :
    ∃ callback, x.issued[j]? = some (request, callback) ∧
      j + x.conn.queue.length < x.issued.length ∧ x.conn.connected = true := by
  obtain ⟨written, hsplit, hon, ⟨_, _, rfl⟩ | ⟨_, os, hwritten, _⟩⟩ :=
    requests_initial (hm.caller_inv hc) (fun call hcall => (hm.keys i key x hc call hcall).1) hsteps
      (hm.arrived i key x s hc hs)
  · cases hj
  · have hget : (x.issued.map Prod.fst)[j]? = some request := by
      have hlt := (List.getElem?_eq_some_iff.mp hj).1
      rw [hsplit, hwritten, List.append_assoc, List.getElem?_append_left hlt, hj]
    have hlt : j < written.length := by
      have hlt := (List.getElem?_eq_some_iff.mp hj).1
      rw [hwritten, List.length_append]
      omega
    rw [List.getElem?_map, Option.map_eq_some_iff] at hget
    obtain ⟨⟨request', callback⟩, hget, rfl⟩ := hget
    have hlen := congrArg List.length hsplit
    rw [List.length_map, List.length_append] at hlen
    exact ⟨callback, hget, by omega, hon (List.ne_nil_of_length_pos (by omega))⟩

theorem Inv.call_at (hm : Inv serves m) (hc : m.callers[i]? = some (key, x))
    (hs : m.agent.streams[i]? = some s) {j : Nat} {request : ActRequest}
    (hj : s.requests[j]? = some request) :
    ∃ callback, x.issued[j]? = some (request, callback) ∧
      j + x.conn.queue.length < x.issued.length ∧ x.conn.connected = true := by
  have hstream := hm.agent.fetches.streams i s hs
  cases hstage : s.stage with
  | none =>
    rw [hstream.idle (by rw [ActStream.key, hstage]; rfl)] at hj
    cases hj
  | some stage => exact hm.call_of_steps hc hs (hstream.reads stage hstage) hj

/-! ### Connections are made, and go on -/

theorem Inv.create (hm : Inv serves m) (hkey : (encodeActKey key).isSome) :
    Inv serves ⟨m.callers ++ [(key, Talk.start _ _ _ _)],
      { m.agent with streams := m.agent.streams ++ [{}] }⟩ := by
  have hcases : ∀ {i : Nat} {key' x}, (m.callers ++ [(key, Talk.start _ _ _ _)])[i]? =
      some (key', x) → m.callers[i]? = some (key', x) ∨
        i = m.callers.length ∧ key' = key ∧ x = Talk.start _ _ _ _ := by
    intro i key' x hget
    rcases Nat.lt_or_ge i m.callers.length with hlt | hge
    · rw [List.getElem?_append_left hlt] at hget
      exact Or.inl hget
    · rw [List.getElem?_append_right hge, List.getElem?_singleton] at hget
      split at hget
      · obtain ⟨rfl, rfl⟩ := Prod.mk.inj (Option.some.inj hget)
        exact Or.inr ⟨by omega, rfl, rfl⟩
      · cases hget
  have hnew : ∀ key', ownedBy Serving.addressee m.callers.length
      (called m.agent.dubboChannelMap key') = [] := by
    intro key'
    unfold called
    cases htalk : m.agent.dubboChannelMap key' with
    | none => rfl
    | some talk =>
      apply ownedBy_eq_nil
      rintro made hmade hlen
      obtain ⟨s, _, _, hs, _⟩ :=
        hm.agent.made_at htalk (hm.agent.talk_inv htalk) rfl hmade
      have hlt := (List.getElem?_eq_some_iff.mp hs).1
      rw [hlen, hm.length] at hlt
      exact Nat.lt_irrefl _ hlt
  refine ⟨hm.agent.accept, by simp [hm.length], ?_, ?_, ?_, ?_, ?_, hm.serves, ?_, ?_⟩
  · intro i key' x hget
    rcases hcases hget with hold | ⟨_, rfl, rfl⟩
    · exact hm.talks i key' x hold
    · exact .refl
  · intro i key' x hget
    rcases hcases hget with hold | ⟨_, rfl, rfl⟩
    · exact hm.keys i key' x hold
    · simp [Talk.start]
  · intro i key' x s hget hs
    rcases hcases hget with hold | ⟨rfl, rfl, rfl⟩
    · have hlt := (List.getElem?_eq_some_iff.mp hold).1
      rw [← hm.length] at hlt
      rw [List.getElem?_append_left hlt] at hs
      exact hm.arrived i key' x s hold hs
    · rw [← hm.length, List.getElem?_append_right (Nat.le_refl _), Nat.sub_self] at hs
      obtain rfl := Option.some.inj hs
      exact List.nil_prefix
  · intro i key' x hget
    rcases hcases hget with hold | ⟨rfl, rfl, rfl⟩
    · exact hm.replies i key' x hold
    · rw [hnew]
      rfl
  · have hwaits : ∀ {key' id i j}, Waits ⟨m.callers ++ [(key, Talk.start _ _ _ _)],
        { m.agent with streams := m.agent.streams ++ [{}] }⟩ key' id i j →
          Waits m key' id i j := by
      rintro key' id i j ⟨x, call, hget, hopen, hid⟩
      rcases hcases hget with hold | ⟨_, _, rfl⟩
      · exact ⟨x, call, hold, hopen, hid⟩
      · cases hopen.1
    exact fun key' id i j i' j' h h' => hm.distinct key' id i j i' j' (hwaits h) (hwaits h')
  · intro i key' x hget
    rcases hcases hget with hold | ⟨_, rfl, _⟩
    · exact hm.fits i key' x hold
    · exact hkey
  · intro i s hs
    rcases Nat.lt_or_ge i m.agent.streams.length with hlt | hge
    · rw [List.getElem?_append_left hlt] at hs
      exact hm.running i s hs
    · rw [List.getElem?_append_right hge] at hs
      obtain rfl := List.mem_singleton.mp (List.mem_of_getElem? hs)
      rfl

/-- An event of a connection that the provider agent has no part in. -/
theorem Inv.caller (hm : Inv serves m) (hc : m.callers[i]? = some (key, x))
    {e : Talk.Event ActRequest ActResponse γ} (hstep : x.step (paProtocol key) e = some x')
    (hallowed : Talk.Allowed (paProtocol key) x e) (hreplies : x'.replies = x.replies)
    (hcalls : e.calls.length ≤ 1) (hkeys : ∀ call ∈ e.calls, call.1.key = key ∧
      (makeDubboRequest call.1).encode.isSome)
    (hfresh : ∀ call ∈ e.calls, ∀ c' ∈ m.callers, c'.1 = key →
      c'.2.conn.callbacks call.1.id = none) :
    Inv serves { m with callers := m.callers.set i (key, x') } := by
  have hcases : ∀ {i' : Nat} {key' x₀}, (m.callers.set i (key, x'))[i']? = some (key', x₀) →
      i' = i ∧ key' = key ∧ x₀ = x' ∨ i' ≠ i ∧ m.callers[i']? = some (key', x₀) := by
    intro i' key' x₀ hget
    by_cases hi : i' = i
    · subst hi
      obtain ⟨hlt, hget⟩ := List.getElem?_eq_some_iff.mp hget
      rw [List.getElem_set_self] at hget
      obtain ⟨rfl, rfl⟩ := Prod.mk.inj hget
      exact Or.inl ⟨rfl, rfl, rfl⟩
    · rw [List.getElem?_set_ne (Ne.symm hi)] at hget
      exact Or.inr ⟨hi, hget⟩
  have hx := hm.caller_inv hc
  refine ⟨hm.agent, by simp [hm.length], ?_, ?_, ?_, ?_, ?_, hm.serves, ?_, hm.running⟩
  · intro i' key' x₀ hget
    rcases hcases hget with ⟨rfl, rfl, rfl⟩ | ⟨_, hold⟩
    · exact (hm.talks _ _ x hc).tail ⟨e, hallowed, hstep⟩
    · exact hm.talks i' key' x₀ hold
  · intro i' key' x₀ hget
    rcases hcases hget with ⟨rfl, rfl, rfl⟩ | ⟨_, hold⟩
    · rw [(Talk.step_grows hstep).issued]
      intro call hcall
      rcases List.mem_append.mp hcall with hcall | hcall
      · exact hm.keys _ _ x hc call hcall
      · exact hkeys call hcall
    · exact hm.keys i' key' x₀ hold
  · intro i' key' x₀ s hget hs
    rcases hcases hget with ⟨rfl, rfl, rfl⟩ | ⟨_, hold⟩
    · exact (hm.arrived _ _ x s hc hs).trans ((Talk.step_grows hstep).stream)
    · exact hm.arrived i' key' x₀ s hold hs
  · intro i' key' x₀ hget
    rcases hcases hget with ⟨rfl, rfl, rfl⟩ | ⟨_, hold⟩
    · rw [hreplies]
      exact hm.replies _ _ x hc
    · exact hm.replies i' key' x₀ hold
  · -- a call waits as before, or it is the one just made, under an id nobody waits for
    have hwaits : ∀ {key' id i' j}, Waits { m with callers := m.callers.set i (key, x') }
        key' id i' j → Waits m key' id i' j ∨ key' = key ∧ i' = i ∧ j = x.issued.length ∧
          ∃ call ∈ e.calls, call.1.id = id := by
      rintro key' id i' j ⟨x₀, call, hget, hopen, hid⟩
      rcases hcases hget with ⟨rfl, rfl, rfl⟩ | ⟨_, hold⟩
      · rcases hx.open_of_step hstep hopen with hopen | ⟨hge, hget⟩
        · exact Or.inl ⟨x, call, hc, hopen, hid⟩
        · have hlt := (List.getElem?_eq_some_iff.mp hget).1
          exact Or.inr ⟨rfl, rfl, by omega, call, List.mem_of_getElem? hget, hid⟩
      · exact Or.inl ⟨x₀, call, hold, hopen, hid⟩
    have hold : ∀ {id i' j}, Waits m key id i' j → ∀ call ∈ e.calls, call.1.id ≠ id := by
      rintro id i' j ⟨x₀, call₀, hget, hopen, rfl⟩ call hcall heq
      have hnone := hfresh call hcall (key, x₀) (List.mem_of_getElem? hget) rfl
      have hsome := (hm.caller_inv hget).callbacks.get hopen
      rw [heq] at hnone
      cases hnone.symm.trans hsome
    intro key' id i₁ j₁ i₂ j₂ h₁ h₂
    rcases hwaits h₁ with h₁ | ⟨hkey₁, hi₁, hj₁, call, hcall, hid⟩ <;>
      rcases hwaits h₂ with h₂ | ⟨hkey₂, hi₂, hj₂, call', hcall', hid'⟩
    · exact hm.distinct key' id i₁ j₁ i₂ j₂ h₁ h₂
    · exact absurd hid' (hold (hkey₂ ▸ h₁) call' hcall')
    · exact absurd hid (hold (hkey₁ ▸ h₂) call hcall)
    · exact ⟨hi₁.trans hi₂.symm, hj₁.trans hj₂.symm⟩
  · intro i' key' x₀ hget
    rcases hcases hget with ⟨rfl, rfl, rfl⟩ | ⟨_, hold⟩
    · exact hm.fits _ _ x hc
    · exact hm.fits i' key' x₀ hold

theorem Inv.arrive (hm : Inv serves m) (hc : m.callers[i]? = some (key, x))
    (hs : m.agent.streams[i]? = some s) {bs : Bytes}
    (hbs : s.arrived ++ bs <+: x.conn.stream) :
    Inv serves { m with agent := { m.agent with streams := m.agent.streams.set i { s with
      arrived := s.arrived ++ bs
      buffer := s.buffer ++ bs } } } := by
  refine ⟨hm.agent.arrive hs bs, by simp [hm.length], hm.talks, hm.keys, ?_, hm.replies,
    hm.distinct, hm.serves, hm.fits, ?_⟩
  · intro i' key' x' s' hget hs'
    rcases Serving.getElem?_set_cases hs' with ⟨rfl, rfl⟩ | ⟨_, hold⟩
    · obtain ⟨rfl, rfl⟩ := Prod.mk.inj (Option.some.inj (hc.symm.trans hget))
      exact hbs
    · exact hm.arrived i' key' x' s' hget hold
  · intro i' s' hs'
    rcases Serving.getElem?_set_cases hs' with ⟨rfl, rfl⟩ | ⟨_, hold⟩
    · exact hm.running _ s hs
    · exact hm.running i' s' hold

/-! ### A coroutine of the provider agent goes on -/

theorem perform_called {channels channels' : ChannelKey → Option Channel} {callback : Nat × Nat}
    {effect : Effect} (h : Serving.perform channels callback effect = some channels')
    (key : ChannelKey) : called channels' key = called channels key := by
  unfold called
  cases htalk' : channels' key with
  | some talk' =>
    rcases Serving.perform_cases h htalk' with ⟨talk, htalk, hfetched⟩ | ⟨_, hnone, rfl⟩
    · rw [htalk]
      exact hfetched.called
    · rw [hnone]
      rfl
  | none =>
    cases htalk : channels key with
    | none => rfl
    | some talk =>
      obtain ⟨talk', hsome, _⟩ := Serving.perform_keeps h htalk
      cases htalk'.symm.trans hsome

theorem mem_called {channels : ChannelKey → Option Channel} {made : (Nat × Nat) × Response}
    (h : made ∈ called channels key) :
    ∃ talk, channels key = some talk ∧ made ∈ talk.conn.called := by
  unfold called at h
  cases htalk : channels key with
  | none =>
    rw [htalk] at h
    cases h
  | some talk =>
    rw [htalk] at h
    exact ⟨talk, rfl, h⟩

/-- A connection has been sent responses to what the provider agent has read only. -/
theorem Inv.ticket_lt (hm : Inv serves m) (hc : m.callers[i]? = some (key, x))
    (hs : m.agent.streams[i]? = some s) {j : Nat} (hj : j ∈ x.replies.map Reply.ticket) :
    j < s.requests.length ∧ ∃ made ∈ called m.agent.dubboChannelMap key, made.1 = (i, j) := by
  rw [hm.replies i key x hc, List.map_map] at hj
  obtain ⟨made, hmem, rfl⟩ := List.mem_map.mp hj
  obtain ⟨hcalled, hi⟩ := mem_ownedBy.mp hmem
  obtain ⟨talk, htalk, hmade⟩ := mem_called hcalled
  obtain ⟨s', request, _, hs', _, hrequest, _⟩ :=
    hm.agent.made_at htalk (hm.agent.talk_inv htalk) rfl hmade
  rw [hi] at hs'
  obtain rfl : s = s' := Option.some.inj (hs.symm.trans hs')
  exact ⟨(List.getElem?_eq_some_iff.mp hrequest).1, made, hcalled, Prod.ext hi rfl⟩

/-- The id that a coroutine is about to fetch with is free on its Dubbo connection: each request
that waits there is one that a connection for the same key waits for. -/
theorem Inv.free (hm : Inv serves m) (hc : m.callers[i]? = some (key, x))
    (hs : m.agent.streams[i]? = some s) {request : ActRequest} {callback : γ}
    (hcall : x.issued[s.requests.length]? = some (request, callback)) {talk : Channel}
    (htalk : m.agent.dubboChannelMap key = some talk) :
    talk.conn.callbacks request.id = none := by
  have htalk' := hm.agent.talk_inv htalk
  have hwaits : Waits m key request.id i s.requests.length := by
    refine ⟨x, (request, callback), hc, Talk.open_of_unserved hcall ?_, rfl⟩
    intro hmem
    exact Nat.lt_irrefl _ (hm.ticket_lt hc hs hmem).1
  cases hcallback : talk.conn.callbacks request.id with
  | none => rfl
  | some callback' =>
    obtain ⟨t, call, hopen, hid⟩ := (htalk'.callbacks.isSome_iff _).mp (by rw [hcallback]; rfl)
    obtain ⟨s', request', hs', hkey', hrequest', heq, _⟩ := hm.agent.fetches.call_at htalk hopen.1
    obtain ⟨key', x', hc'⟩ := hm.exists_caller hs'
    obtain rfl := hm.key_eq hc' hs' hkey'
    obtain ⟨callback'', hcall', _⟩ := hm.call_at hc' hs' hrequest'
    have hwaits' : Waits m key request.id (Serving.caller call) call.2.2 := by
      refine ⟨x', (request', callback''), hc', Talk.open_of_unserved hcall' ?_, ?_⟩
      · intro hmem
        obtain ⟨_, made, hmade, hmade'⟩ := hm.ticket_lt hc' hs' hmem
        obtain ⟨talk₀, htalk₀, hmade⟩ := mem_called hmade
        obtain rfl : talk = talk₀ := Option.some.inj (htalk.symm.trans htalk₀)
        obtain ⟨r, call'', hr, hcall'', rfl, _⟩ := htalk'.made hmade
        have hsame := hm.agent.fetches.issued_inj htalk _ _ _ _ hcall'' hopen.1 hmade'
        exact hopen.2 (hsame ▸ List.mem_map_of_mem hr)
      · have hids : (request'.id : Int) = request.id := by
          rw [← hid]
          exact (congrArg Request.id heq).symm
        exact_mod_cast hids
    obtain ⟨rfl, hlen⟩ := hm.distinct _ _ _ _ _ _ hwaits hwaits'
    obtain rfl : s = s' := Option.some.inj (hs.symm.trans hs')
    rw [← hlen, List.getElem?_eq_none (Nat.le_refl _)] at hrequest'
    cases hrequest'

theorem Inv.resume (hm : Inv serves m) (hs : m.agent.streams[i]? = some s) {stage : Stage}
    (hstage : s.stage = some stage) (hle : stage.numBytes ≤ s.buffer.length) :
    ∃ channels', Serving.perform m.agent.dubboChannelMap (i, s.requests.length)
        (stage.effect (s.data stage)) = some channels' ∧
      Inv serves { m with agent :=
        ⟨channels', m.agent.streams.set i (s.advance stage)⟩ } := by
  obtain ⟨key, x, hc⟩ := hm.exists_caller hs
  have hcan : ∀ request, m.agent.nextFetch i = some request →
      (makeDubboRequest request).encode.isSome ∧
        ∀ talk, m.agent.dubboChannelMap request.key = some talk →
          talk.conn.callbacks request.id = none := by
    intro request hfetch
    have heffect : stage.effect (s.data stage) = .fetch request := by
      simp only [Serving.nextFetch, hs, hstage, Option.bind_eq_bind, Option.bind_some] at hfetch
      split at hfetch
      · rename_i heffect
        rw [heffect, Option.some.inj hfetch]
      · cases hfetch
    have hsteps := (hm.agent.fetches.streams i s hs).reads_next hstage hle _
      (Stage.next_of_fetch heffect)
    rw [show (s.advance stage).requests = s.requests ++ [request] by
      simp [ActStream.advance, heffect, Effect.requests]] at hsteps
    obtain ⟨callback, hcall, _⟩ := hm.call_of_steps hc hs hsteps
      (show (s.requests ++ [request])[s.requests.length]? = some request by simp)
    obtain ⟨hkey, hencode⟩ := hm.keys i key x hc _ (List.mem_of_getElem? hcall)
    refine ⟨hencode, ?_⟩
    intro talk htalk
    rw [hkey] at htalk
    exact hm.free hc hs hcall htalk
  have hallowed : Serving.Allowed m.agent (.resume i) :=
    ⟨fun request hfetch => (hcan request hfetch).1, fun request hfetch => (hcan request hfetch).2⟩
  obtain ⟨channels', hperform, hagent⟩ := hm.agent.resume hs hstage hle hallowed
  refine ⟨channels', hperform, hagent, by simp [hm.length], hm.talks, hm.keys, ?_, ?_,
    hm.distinct, ?_, hm.fits, ?_⟩
  · intro i' key' x' s' hget hs'
    rcases Serving.getElem?_set_cases hs' with ⟨rfl, rfl⟩ | ⟨_, hold⟩
    · exact hm.arrived _ key' x' s hget hs
    · exact hm.arrived i' key' x' s' hget hold
  · intro i' key' x' hget
    rw [perform_called hperform]
    exact hm.replies i' key' x' hget
  · intro key' talk' htalk' r hr call hcall
    rcases Serving.perform_cases hperform htalk' with ⟨talk, htalk, hfetched⟩ | ⟨_, _, rfl⟩
    · rw [hfetched.replies] at hr
      obtain ⟨call', hcall', _⟩ := (hm.agent.talk_inv htalk).replied r hr
      rw [hfetched.issued, List.getElem?_append_left (List.getElem?_eq_some_iff.mp hcall').1]
        at hcall
      exact hm.serves key' talk htalk r hr call hcall
    · cases hr
  · intro i' s' hs'
    rcases Serving.getElem?_set_cases hs' with ⟨rfl, rfl⟩ | ⟨_, hold⟩
    · exact hm.next_isSome hc hs hstage hle
    · exact hm.running i' s' hold

/-! ### A Dubbo connection goes on -/

theorem hear_served (hx : Talk.Inv (paProtocol key) x) (bytes : Bytes)
    (replies : List (Reply ActResponse)) : (hear x bytes replies).served = x.served :=
  List.take_append_of_le_length hx.called_le

theorem hear_ledger (hx : Talk.Inv (paProtocol key) x) (bytes : Bytes)
    (replies : List (Reply ActResponse)) : (hear x bytes replies).ledger = x.ledger := by
  rw [Talk.ledger, hear_served hx]
  rfl

/-- The responses that have just been written to stream `i` are responses to requests that its
connection has sent and that have not been answered. -/
theorem Inv.hear (hm : Inv serves m) (hc : m.callers[i]? = some (key, x)) {talk talk' : Channel}
    (htalk : m.agent.dubboChannelMap key = some talk)
    (htalk' : Talk.Inv dubboProtocol talk') (hissued : talk'.issued = talk.issued)
    {new : List ((Nat × Nat) × Response)} (hnew : talk'.conn.called = talk.conn.called ++ new) :
    Talk.Reached (paProtocol key) (PyMesh.hear x (Serving.answers new i)
      ((ownedBy Serving.addressee i new).map act)) := by
  have hall : ∀ r ∈ (ownedBy Serving.addressee i new).map act, ∃ request callback,
      x.issued[r.ticket]? = some (request, callback) ∧
        r.ticket + x.conn.queue.length < x.issued.length ∧ x.conn.connected = true ∧
        r.value.id = request.id ∧ r.value.encodeBody = some r.bytes := by
    intro r hr
    obtain ⟨made, hmem, rfl⟩ := List.mem_map.mp hr
    obtain ⟨hmade, rfl⟩ := mem_ownedBy.mp hmem
    have hcalled : made ∈ talk'.conn.called := by
      rw [hnew]
      exact List.mem_append_right _ hmade
    obtain ⟨s, request, _, hs, _, hrequest, hid, hlt, hlen, _⟩ :=
      hm.agent.made_at htalk htalk' hissued hcalled
    obtain ⟨callback, hcall, hqueue, hon⟩ := hm.call_at hc hs hrequest
    refine ⟨request, callback, hcall, hqueue, hon, hid, ?_⟩
    exact encodeBody_eq_some_iff.mpr ⟨⟨by rw [← hid] at hlt; exact hlt, hlen⟩, rfl⟩
  have hbytes : Serving.answers new i =
      (((ownedBy Serving.addressee i new).map act).map Reply.bytes).flatten := by
    rw [List.map_map]
    rfl
  rw [hbytes]
  apply (hm.talks i key x hc).replies
  · intro hne
    obtain ⟨r, hr⟩ := List.exists_mem_of_ne_nil _ hne
    obtain ⟨_, _, _, _, hon, _⟩ := hall r hr
    exact hon
  · intro r hr
    obtain ⟨_, _, _, hqueue, _⟩ := hall r hr
    exact hqueue
  · intro r hr call hcall
    obtain ⟨request, callback, hcall', _, _, hid, hencode⟩ := hall r hr
    obtain rfl := Option.some.inj (hcall.symm.trans hcall')
    exact paFrame_iff.mpr ⟨congrArg Nat.cast hid, hencode⟩
  · have honce := Serving.tickets_nodup htalk' (by
      rw [hissued]
      exact hm.agent.fetches.issued_inj htalk) i
    rw [hm.replies i key x hc, called, htalk, ← List.map_append, ← ownedBy_append,
      Option.elim_some, ← hnew, List.map_map]
    exact honce

/-- What is regular in the mesh is regular on the Dubbo connection. -/
theorem Regular.talk {e : Talk.Event Request Response (Nat × Nat)}
    (h : Regular serves m (.dubbo key e)) {talk : Channel}
    (htalk : m.agent.dubboChannelMap key = some talk) (hcalls : e.calls = []) :
    Talk.Regular dubboProtocol talk e := by
  cases e with
  | connect => rfl
  | fetch r callback => cases hcalls
  | reply r => exact fun call hcall => (h talk htalk call hcall).1
  | _ => trivial

theorem Inv.dubbo (hm : Inv serves m) {talk talk' : Channel}
    (htalk : m.agent.dubboChannelMap key = some talk)
    {e : Talk.Event Request Response (Nat × Nat)} (hstep : talk.step dubboProtocol e = some talk')
    (hcalls : e.calls = []) (hregular : Regular serves m (.dubbo key e)) :
    ∃ new, talk'.conn.called = talk.conn.called ++ new ∧
      (talk'.conn.called.drop talk.conn.called.length).foldlM Serving.callback m.agent.streams =
        some (m.agent.streams.mapIdx fun i s => s.write (Serving.answers new i)) ∧
      Inv serves ⟨m.callers.mapIdx fun i c => (c.1, PyMesh.hear c.2 (Serving.answers new i)
          ((ownedBy Serving.addressee i new).map act)),
        ⟨Function.update m.agent.dubboChannelMap key (some talk'),
          m.agent.streams.mapIdx fun i s => s.write (Serving.answers new i)⟩⟩ := by
  have hframes := Regular.talk hregular htalk hcalls
  have hissued : talk'.issued = talk.issued := by
    rw [(Talk.step_grows hstep).issued, hcalls, List.append_nil]
  obtain ⟨new, hnew, hfold, hagent⟩ := hm.agent.dubbo htalk hstep hcalls hframes
  have hself : Function.update m.agent.dubboChannelMap key (some talk') key = some talk' :=
    Function.update_self _ _ _
  have hother : ∀ key', key' ≠ key →
      Function.update m.agent.dubboChannelMap key (some talk') key' =
        m.agent.dubboChannelMap key' := fun key' hne => Function.update_of_ne hne _ _
  have htalk' : Talk.Inv dubboProtocol talk' := hagent.talk_inv hself
  -- a connection for another key hears nothing
  have hforeign : ∀ {i : Nat} {key' x}, m.callers[i]? = some (key', x) → key' ≠ key →
      ownedBy Serving.addressee i new = [] := by
    intro i key' x hc hne
    apply ownedBy_eq_nil
    rintro made hmade rfl
    have hcalled : made ∈ talk'.conn.called := by
      rw [hnew]
      exact List.mem_append_right _ hmade
    obtain ⟨s, _, _, hs, hkey, _⟩ := hm.agent.made_at htalk htalk' hissued hcalled
    exact hne (hm.key_eq hc hs hkey).symm
  have hcases : ∀ {i : Nat} {key' x'}, (m.callers.mapIdx fun i c =>
      (c.1, PyMesh.hear c.2 (Serving.answers new i)
        ((ownedBy Serving.addressee i new).map act)))[i]? = some (key', x') →
      ∃ x, m.callers[i]? = some (key', x) ∧ x' = PyMesh.hear x (Serving.answers new i)
        ((ownedBy Serving.addressee i new).map act) := by
    intro i key' x' hget
    rw [List.getElem?_mapIdx, Option.map_eq_some_iff] at hget
    obtain ⟨⟨key₀, x⟩, hc, heq⟩ := hget
    obtain ⟨rfl, rfl⟩ := Prod.mk.inj heq
    exact ⟨x, hc, rfl⟩
  refine ⟨new, hnew, hfold, hagent, by simp [hm.length], ?_, ?_, ?_, ?_, ?_, ?_, ?_, ?_⟩
  · intro i key' x' hget
    obtain ⟨x, hc, rfl⟩ := hcases hget
    by_cases hk : key' = key
    · subst hk
      exact hm.hear hc htalk htalk' hissued hnew
    · rw [Serving.answers, hforeign hc hk]
      simpa [PyMesh.hear] using hm.talks i key' x hc
  · intro i key' x' hget
    obtain ⟨x, hc, rfl⟩ := hcases hget
    exact hm.keys i key' x hc
  · intro i key' x' s' hget hs'
    obtain ⟨x, hc, rfl⟩ := hcases hget
    rw [List.getElem?_mapIdx, Option.map_eq_some_iff] at hs'
    obtain ⟨s, hs, rfl⟩ := hs'
    exact hm.arrived i key' x s hc hs
  · intro i key' x' hget
    obtain ⟨x, hc, rfl⟩ := hcases hget
    by_cases hk : key' = key
    · subst hk
      simp only [PyMesh.hear, hm.replies i key' x hc, called, htalk, hself, Option.elim_some, hnew,
        ownedBy_append, List.map_append]
    · simp only [PyMesh.hear, hm.replies i key' x hc, called, hother key' hk, hforeign hc hk,
        List.map_nil, List.append_nil]
  · have hwaits : ∀ {key' id i j}, Waits ⟨m.callers.mapIdx fun i c =>
        (c.1, PyMesh.hear c.2 (Serving.answers new i)
          ((ownedBy Serving.addressee i new).map act)),
        ⟨Function.update m.agent.dubboChannelMap key (some talk'),
          m.agent.streams.mapIdx fun i s => s.write (Serving.answers new i)⟩⟩ key' id i j →
          Waits m key' id i j := by
      rintro key' id i j ⟨x', call, hget, hopen, hid⟩
      obtain ⟨x, hc, rfl⟩ := hcases hget
      rw [hear_ledger (hm.caller_inv hc)] at hopen
      exact ⟨x, call, hc, hopen, hid⟩
    exact fun key' id i j i' j' h h' => hm.distinct key' id i j i' j' (hwaits h) (hwaits h')
  · intro key' talk₀ htalk₀ r hr call hcall
    by_cases hk : key' = key
    · subst hk
      obtain rfl : talk' = talk₀ := Option.some.inj (hself.symm.trans htalk₀)
      rw [hissued] at hcall
      rw [(Talk.step_grows hstep).replies] at hr
      rcases List.mem_append.mp hr with hr | hr
      · exact hm.serves key' talk htalk r hr call hcall
      · cases e with
        | reply r' =>
          obtain rfl := List.mem_singleton.mp hr
          exact (hregular talk htalk call hcall).2
        | _ => cases hr
    · exact hm.serves key' talk₀ ((hother key' hk).symm.trans htalk₀) r hr call hcall
  · intro i key' x' hget
    obtain ⟨x, hc, rfl⟩ := hcases hget
    exact hm.fits i key' x hc
  · intro i s' hs'
    rw [List.getElem?_mapIdx, Option.map_eq_some_iff] at hs'
    obtain ⟨s, hs, rfl⟩ := hs'
    exact hm.running i s hs

/-! ### Whole runs -/

theorem stepCaller_eq_some_iff {e : Talk.Event ActRequest ActResponse γ} :
    m.stepCaller i e = some m' ↔ ∃ key x x', m.callers[i]? = some (key, x) ∧
      x.step (paProtocol key) e = some x' ∧
      m' = { m with callers := m.callers.set i (key, x') } := by
  unfold stepCaller
  constructor
  · intro h
    obtain ⟨⟨key, x⟩, hc, h⟩ := Option.bind_eq_some_iff.mp h
    obtain ⟨x', hstep, h⟩ := Option.bind_eq_some_iff.mp h
    exact ⟨key, x, x', hc, hstep, (Option.some.inj h).symm⟩
  · rintro ⟨key, x, x', hc, hstep, rfl⟩
    rw [hc, Option.bind_eq_bind, Option.bind_some]
    dsimp only
    rw [hstep]
    rfl

theorem Inv.stepCaller (hm : Inv serves m) {e : Talk.Event ActRequest ActResponse γ}
    (hstep : m.stepCaller i e = some m') (hcalls : e.calls = []) (hreplies : e.replies = []) :
    Inv serves m' := by
  obtain ⟨key, x, x', hc, hx, rfl⟩ := stepCaller_eq_some_iff.mp hstep
  have hregular : Talk.Regular (paProtocol key) x e := by
    cases e with
    | connect =>
      rw [Talk.Regular, paProtocol_greeting, Option.isSome_map]
      exact hm.fits i key x hc
    | fetch r callback => cases hcalls
    | reply r => cases hreplies
    | _ => trivial
  have hsame : x'.replies = x.replies := by
    rw [(Talk.step_grows hx).replies, hreplies, List.append_nil]
  exact hm.caller hc hx ⟨hregular, Talk.fresh_of_calls hcalls⟩ hsame (by simp [hcalls])
    (by simp [hcalls]) (by simp [hcalls])

/-- The bytes that go to each connection are those that were written to its stream. -/
theorem written_drop {streams : List ActStream} {channels channels' : ChannelKey → Option Channel}
    (new : List ((Nat × Nat) × Response)) (hi : i < streams.length) :
    (written ⟨channels', streams.mapIdx fun i s => s.write (Serving.answers new i)⟩ i).drop
      (written ⟨channels, streams⟩ i).length = Serving.answers new i := by
  simp [written, List.getElem?_eq_getElem hi, ActStream.write]

theorem Inv.step_dubbo (hm : Inv serves m) {e : Talk.Event Request Response (Nat × Nat)}
    (hregular : Regular serves m (.dubbo key e)) {talk talk' : Channel}
    (htalk : m.agent.dubboChannelMap key = some talk)
    (hstep : talk.step dubboProtocol e = some talk') (hcalls : e.calls = []) :
    ∃ m', step m (.dubbo key e) = some m' ∧ Inv serves m' ∧
      ∃ new, talk'.conn.called = talk.conn.called ++ new ∧
        m'.callers = m.callers.mapIdx fun i c => (c.1, PyMesh.hear c.2 (Serving.answers new i)
          ((ownedBy Serving.addressee i new).map act)) := by
  obtain ⟨new, hnew, hfold, hinv⟩ := hm.dubbo htalk hstep hcalls hregular
  have hagent := Serving.dubbo_eq_some_iff.mpr ⟨hcalls, talk, talk', _, htalk, hstep, hfold, rfl⟩
  have hself : Function.update m.agent.dubboChannelMap key (some talk') key = some talk' :=
    Function.update_self _ _ _
  have hmade : (called (Function.update m.agent.dubboChannelMap key (some talk')) key).drop
      (called m.agent.dubboChannelMap key).length = new := by
    simp only [called, hself, htalk, Option.elim_some, hnew, List.drop_left]
  refine ⟨_, ?_, hinv, new, hnew, rfl⟩
  simp only [step, hagent, Option.bind_eq_bind, Option.bind_some, hmade]
  apply congrArg some
  have hcallers : ∀ (l l' : List (Caller γ)), l = l' → ∀ agent : Serving,
      PyMesh.mk l agent = PyMesh.mk l' agent := fun _ _ h _ => by rw [h]
  apply hcallers
  apply List.ext_getElem?
  intro i
  rw [List.getElem?_mapIdx, List.getElem?_mapIdx]
  cases hc : m.callers[i]? with
  | none => rfl
  | some c =>
    have hlt := (List.getElem?_eq_some_iff.mp hc).1
    rw [← hm.length] at hlt
    simp only [Option.map_some]
    rw [show written m.agent i = written ⟨m.agent.dubboChannelMap, m.agent.streams⟩ i from rfl,
      written_drop new hlt]

theorem inv_step {e : Event γ} (hm : Inv serves m) (he : Allowed serves m e)
    (hstep : step m e = some m') : Inv serves m' := by
  cases e with
  | create key =>
    obtain rfl := Option.some.inj hstep
    exact hm.create he.1
  | connect i => exact hm.stepCaller hstep rfl rfl
  | receive i n => exact hm.stepCaller hstep rfl rfl
  | readCallback i => exact hm.stepCaller hstep rfl rfl
  | fetch i request callback =>
    obtain ⟨key, x, x', hc, hx, rfl⟩ := stepCaller_eq_some_iff.mp hstep
    obtain ⟨hkey, hbody, hencode⟩ := he.1 (key, x) hc
    have hfree := he.2 (key, x) hc
    have hfree' := hfree (key, x) (List.mem_of_getElem? hc) rfl
    have hallowed : Talk.Allowed (paProtocol key) x (.fetch request callback) := ⟨hbody, hfree'⟩
    apply hm.caller hc hx hallowed ((Talk.step_grows hx).replies.trans (List.append_nil _))
      (Nat.le_refl 1)
    · intro call hcall
      obtain rfl := List.mem_singleton.mp hcall
      exact ⟨hkey, hencode⟩
    · intro call hcall
      obtain rfl := List.mem_singleton.mp hcall
      exact hfree
  | arrive i n =>
    obtain ⟨⟨key, x⟩, hc, hstep⟩ := Option.bind_eq_some_iff.mp hstep
    obtain ⟨s, hs, hstep⟩ := Option.bind_eq_some_iff.mp hstep
    obtain ⟨agent, hagent, hstep⟩ := Option.bind_eq_some_iff.mp hstep
    obtain ⟨s', hs', hagent⟩ := Option.bind_eq_some_iff.mp hagent
    obtain rfl : s = s' := Option.some.inj (hs.symm.trans hs')
    obtain rfl := Option.some.inj hagent
    obtain rfl := Option.some.inj hstep
    apply hm.arrive hc hs
    obtain ⟨more, hmore⟩ := hm.arrived i key x s hc hs
    rw [← hmore, List.drop_left]
    exact (List.prefix_append_right_inj _).mpr (List.take_prefix _ _)
  | resume i =>
    obtain ⟨agent, hagent, hstep⟩ := Option.bind_eq_some_iff.mp hstep
    obtain rfl := Option.some.inj hstep
    obtain ⟨s, stage, channels, hs, hstage, hle, hperform, rfl⟩ :=
      Serving.resume_eq_some_iff.mp hagent
    obtain ⟨channels', hperform', hinv⟩ := hm.resume hs hstage hle
    obtain rfl : channels = channels' := Option.some.inj (hperform.symm.trans hperform')
    exact hinv
  | dubbo key e =>
    obtain ⟨agent, hagent, _⟩ := Option.bind_eq_some_iff.mp hstep
    obtain ⟨hcalls, talk, talk', _, htalk, htalk', _⟩ := Serving.dubbo_eq_some_iff.mp hagent
    obtain ⟨m₁, hm₁, hinv, _⟩ := hm.step_dubbo he.1 htalk htalk' hcalls
    obtain rfl := Option.some.inj (hstep.symm.trans hm₁)
    exact hinv

theorem Inv.returns_caller (hm : Inv serves m) {e : Talk.Event ActRequest ActResponse γ}
    (hcan : m.CanCaller i e)
    (hallowed : ∀ key x, m.callers[i]? = some (key, x) → Talk.Allowed (paProtocol key) x e) :
    (m.stepCaller i e).isSome := by
  obtain ⟨key, x, hc, hcan⟩ := hcan
  obtain ⟨x', hstep⟩ := Option.isSome_iff_exists.mp
    ((hm.caller_inv hc).returns (paProtocol_lawful key) hcan (hallowed key x hc))
  rw [stepCaller_eq_some_iff.mpr ⟨key, x, x', hc, hstep, rfl⟩]
  rfl

/-- What can happen and is allowed does. -/
theorem Inv.returns (hm : Inv serves m) {e : Event γ} (hcan : Can m e)
    (hallowed : Allowed serves m e) : (step m e).isSome := by
  cases e with
  | create key => rfl
  | connect i =>
    apply hm.returns_caller hcan
    intro key x hc
    refine ⟨?_, trivial⟩
    rw [Talk.Regular, paProtocol_greeting, Option.isSome_map]
    exact hm.fits i key x hc
  | fetch i request callback =>
    apply hm.returns_caller hcan
    intro key x hc
    exact ⟨(hallowed.1 _ hc).2.1, hallowed.2 _ hc _ (List.mem_of_getElem? hc) rfl⟩
  | arrive i n =>
    have hlt : i < m.agent.streams.length := hm.length ▸ hcan
    simp only [step, Serving.step, List.getElem?_eq_getElem (show i < m.callers.length from hcan),
      List.getElem?_eq_getElem hlt, Option.bind_eq_bind, Option.bind_some]
    rfl
  | resume i =>
    obtain ⟨s, stage, hs, hstage, hle⟩ := hcan
    obtain ⟨channels, hperform, _⟩ := hm.resume hs hstage hle
    have hagent := Serving.resume_eq_some_iff.mpr
      ⟨s, stage, channels, hs, hstage, hle, hperform, rfl⟩
    simp only [step, hagent, Option.bind_eq_bind, Option.bind_some]
    rfl
  | dubbo key e =>
    obtain ⟨hfetch, talk, htalk, hcan⟩ := hcan
    have hcalls := Talk.Event.calls_eq_nil hfetch
    have hregular := Regular.talk hallowed.1 htalk hcalls
    obtain ⟨talk', hstep⟩ := Option.isSome_iff_exists.mp ((hm.agent.talk_inv htalk).returns
      dubboProtocol_lawful hcan ⟨hregular, Talk.fresh_of_calls hcalls⟩)
    obtain ⟨m', hm', _⟩ := hm.step_dubbo hallowed.1 htalk hstep hcalls
    rw [hm']
    rfl
  | receive i n => exact hm.returns_caller hcan fun _ _ _ => ⟨trivial, trivial⟩
  | readCallback i => exact hm.returns_caller hcan fun _ _ _ => ⟨trivial, trivial⟩

theorem inv_of_reached (h : Reached serves m) : Inv serves m :=
  h.invariant (inv_start serves) fun _ _ _ hm he hstep => inv_step hm he hstep

end

end PyMesh

end PyAgent.Python
