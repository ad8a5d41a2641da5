import PyAgent.PythonMesh

/-!
# What the mesh of the Python agents is for

Seen from the consumer agents it is remote calls, as the mesh of the C++ agents is; and
once it has nothing left to do, every call has been answered.
-/

namespace PyAgent.Python
set_option autoImplicit false

open Streaming

namespace PyMesh
variable {γ : Type}

/-- What is an answer to the Dubbo request of a call is an answer to the call. -/
def Serves (serves : Bytes → Bytes → Prop) (call : ActRequest × γ) (result : Bytes) : Prop :=
  serves (makeDubboRequest call.1).body result

def issued (m : PyMesh γ) (i : Nat) : List (ActRequest × γ) :=
  m.callers[i]?.elim [] fun c => c.2.issued

/-- The callbacks that have been called on a connection of a consumer agent. -/
def made (m : PyMesh γ) (i : Nat) : List (γ × ActResponse) :=
  m.callers[i]?.elim [] fun c => c.2.conn.called

def answered (m : PyMesh γ) (i : Nat) : List (Nat × Bytes) :=
  m.callers[i]?.elim [] fun c => c.2.served.map fun r => (r.ticket, r.value.result)

/-- The mesh as remote calls: the answers are the callbacks made, each with the id of its call. -/
structure Shows (m : PyMesh γ) (r : Remote Nat (ActRequest × γ) Bytes) : Prop where
  issued : ∀ i, r.issued i = m.issued i
  answers : ∀ i, List.Forall₂ (fun answer made => ∃ call, (m.issued i)[answer.1]? = some call ∧
    made = (call.2, ⟨call.1.id, answer.2⟩)) (r.answers i) (m.made i)

def remote (m : PyMesh γ) : Remote Nat (ActRequest × γ) Bytes := ⟨m.issued, m.answered⟩

section
variable {serves : Bytes → Bytes → Prop} {m m' : PyMesh γ} {i : Nat} {key : ChannelKey}
  {x x' : Talk ActRequest PAReading ActResponse γ}

theorem Inv.shows (hm : Inv serves m) : Shows m (remote m) := by
  refine ⟨fun _ => rfl, ?_⟩
  intro i
  simp only [remote, answered, made, issued]
  cases hc : m.callers[i]? with
  | none => exact .nil
  | some c =>
    obtain ⟨key, x⟩ := c
    have hx := hm.caller_inv hc
    simp only [Option.elim_some, List.forall₂_map_left_iff]
    refine hx.called.imp ?_
    rintro r made ⟨call, hcall, rfl, hid⟩
    have hid' : r.value.id = call.1.id := Int.natCast_inj.mp hid
    exact ⟨call, hcall, by rw [← hid']⟩

theorem Inv.answer_right (hm : Inv serves m) (hc : m.callers[i]? = some (key, x))
    {r : Reply ActResponse} (hr : r ∈ x.replies) :
    ∃ call, x.issued[r.ticket]? = some call ∧ Serves serves call r.value.result := by
  rw [hm.replies i key x hc] at hr
  obtain ⟨made, hmem, rfl⟩ := List.mem_map.mp hr
  obtain ⟨hcalled, rfl⟩ := mem_ownedBy.mp hmem
  obtain ⟨talk, htalk, hmade⟩ := mem_called hcalled
  obtain ⟨s, request, r₀, hs, _, hrequest, _, _, _, hr₀, hvalue, hissued⟩ :=
    hm.agent.made_at htalk (hm.agent.talk_inv htalk) rfl hmade
  obtain ⟨callback, hcall, _⟩ := hm.call_at hc hs hrequest
  refine ⟨(request, callback), hcall, ?_⟩
  have hserves := hm.serves key talk htalk r₀ (talk.served_subset hr₀) _ hissued
  rw [hvalue] at hserves
  exact hserves

theorem Inv.sound (hm : Inv serves m) : (remote m).Sound (Serves serves) := by
  constructor
  · intro i
    simp only [remote, answered]
    cases hc : m.callers[i]? with
    | none => exact List.nodup_nil
    | some c =>
      obtain ⟨key, x⟩ := c
      rw [Option.elim_some, List.map_map]
      exact (hm.caller_inv hc).once.sublist ((List.take_sublist _ _).map _)
  · intro i j result hmem
    simp only [remote, answered, issued] at hmem ⊢
    cases hc : m.callers[i]? with
    | none =>
      rw [hc] at hmem
      cases hmem
    | some c =>
      obtain ⟨key, x⟩ := c
      rw [hc, Option.elim_some] at hmem
      obtain ⟨r, hr, heq⟩ := List.mem_map.mp hmem
      obtain ⟨rfl, rfl⟩ := Prod.mk.inj heq
      exact hm.answer_right hc (x.served_subset hr)

/-- A connection that has just been made has no part in anything yet. -/
theorem elim_append {α β : Type} {l : List α} {a : α} {f : α → List β} (hf : f a = []) (i : Nat) :
    (l ++ [a])[i]?.elim [] f = l[i]?.elim [] f := by
  rcases Nat.lt_or_ge i l.length with hlt | hge
  · rw [List.getElem?_append_left hlt]
  · rw [List.getElem?_append_right hge, List.getElem?_eq_none hge, List.getElem?_singleton]
    split
    · exact hf
    · rfl

theorem remote_ext (hissued : ∀ i, m'.issued i = m.issued i)
    (hanswered : ∀ i, m'.answered i = m.answered i) : remote m' = remote m := by
  simp only [remote, funext hissued, funext hanswered]

/-- A step of a connection makes a call, or it answers some. -/
theorem remote_set (hc : m.callers[i]? = some (key, x)) {calls : List (ActRequest × γ)}
    {more : List (Reply ActResponse)} (hissued : x'.issued = x.issued ++ calls)
    (hserved : x'.served = x.served ++ more) :
    remote { m with callers := m.callers.set i (key, x') } =
      ⟨Function.update m.issued i (m.issued i ++ calls),
        Function.update m.answered i
          (m.answered i ++ more.map fun r => (r.ticket, r.value.result))⟩ := by
  have hself : (m.callers.set i (key, x'))[i]? = some (key, x') :=
    List.getElem?_set_self (List.getElem?_eq_some_iff.mp hc).1
  simp only [remote, Remote.mk.injEq]
  constructor
  · funext i'
    by_cases hi : i' = i
    · subst hi
      simp only [Function.update_self, issued, hself, hc, Option.elim_some, hissued]
    · simp only [Function.update_of_ne hi, issued, List.getElem?_set_ne (Ne.symm hi)]
  · funext i'
    by_cases hi : i' = i
    · subst hi
      simp only [Function.update_self, answered, hself, hc, Option.elim_some, hserved,
        List.map_append]
    · simp only [Function.update_of_ne hi, answered, List.getElem?_set_ne (Ne.symm hi)]

theorem Inv.remote_stepCaller (hm : Inv serves m) (hm' : Inv serves m')
    (h : Remote.Reached (Serves serves) (remote m))
    {e : Talk.Event ActRequest ActResponse γ} (hcalls : e.calls = [])
    (hstep : m.stepCaller i e = some m') : Remote.Reached (Serves serves) (remote m') := by
  obtain ⟨key, x, x', hc, hx, rfl⟩ := stepCaller_eq_some_iff.mp hstep
  have hissued := (Talk.step_grows hx).issued
  obtain ⟨more, hmore⟩ := (hm.caller_inv hc).served_initial hx
  have hremote := remote_set hc hissued hmore.symm
  rw [hcalls, List.append_nil, Function.update_eq_self] at hremote
  have hsound := hm'.sound
  rw [hremote] at hsound ⊢
  apply h.answerAll
  · have honce := hsound.once i
    simp only [Function.update_self] at honce
    exact honce
  · intro j v hmem
    have hright := hsound.right i j v
    simp only [Function.update_self] at hright
    exact hright (List.mem_append_right _ hmem)

theorem Inv.remote_step (hm : Inv serves m) {e : Event γ} (he : Allowed serves m e)
    (hstep : step m e = some m') (h : Remote.Reached (Serves serves) (remote m)) :
    Remote.Reached (Serves serves) (remote m') := by
  have hm' := inv_step hm he hstep
  cases e with
  | create key =>
    obtain rfl := Option.some.inj hstep
    rw [remote_ext (m := m)]
    · exact h
    · exact fun i => elim_append rfl i
    · exact fun i => elim_append rfl i
  | connect i => exact hm.remote_stepCaller hm' h rfl hstep
  | receive i n => exact hm.remote_stepCaller hm' h rfl hstep
  | readCallback i => exact hm.remote_stepCaller hm' h rfl hstep
  | fetch i request callback =>
    obtain ⟨key, x, x', hc, hx, rfl⟩ := stepCaller_eq_some_iff.mp hstep
    have hserved : x'.served = x.served ++ [] := by
      have hreplies := (Talk.step_grows hx).replies
      rw [Talk.served, Talk.step_called hx (by simp), hreplies]
      simp [Talk.Event.replies, Talk.served]
    have hremote := remote_set hc ((Talk.step_grows hx).issued) hserved
    rw [List.map_nil, List.append_nil, Function.update_eq_self] at hremote
    rw [hremote]
    exact h.tail (.call _ i (request, callback))
  | arrive i n =>
    obtain ⟨_, _, hstep⟩ := Option.bind_eq_some_iff.mp hstep
    obtain ⟨_, _, hstep⟩ := Option.bind_eq_some_iff.mp hstep
    obtain ⟨agent, _, hstep⟩ := Option.bind_eq_some_iff.mp hstep
    obtain rfl := Option.some.inj hstep
    exact h
  | resume i =>
    obtain ⟨agent, _, hstep⟩ := Option.bind_eq_some_iff.mp hstep
    obtain rfl := Option.some.inj hstep
    exact h
  | dubbo key e =>
    obtain ⟨agent, hagent, _⟩ := Option.bind_eq_some_iff.mp hstep
    obtain ⟨hcalls, talk, talk', _, htalk, htalk', _⟩ := Serving.dubbo_eq_some_iff.mp hagent
    obtain ⟨m₁, hm₁, _, new, _, hcallers⟩ := hm.step_dubbo he.1 htalk htalk' hcalls
    obtain rfl := Option.some.inj (hstep.symm.trans hm₁)
    rw [remote_ext (m := m)]
    · exact h
    · intro i
      rw [issued, hcallers, List.getElem?_mapIdx]
      cases hc : m.callers[i]? <;> simp [issued, hc, PyMesh.hear]
    · intro i
      rw [answered, hcallers, List.getElem?_mapIdx]
      cases hc : m.callers[i]? with
      | none => simp [answered, hc]
      | some c =>
        obtain ⟨key', x⟩ := c
        simp [answered, hc, hear_served (hm.caller_inv hc)]

theorem remote_of_inv_reached (h : Reached serves m) :
    Remote.Reached (Serves serves) (remote m) := by
  induction h with
  | refl => exact .refl
  | tail hreached hstep ih =>
    obtain ⟨e, he, hstep⟩ := hstep
    exact (inv_of_reached hreached).remote_step he hstep ih

/-! ## No call is lost -/

/-- Everything sent has arrived, and there is nothing that the loops could do or that the provider
could answer. -/
structure Stuck (m : PyMesh γ) : Prop where
  arrived : ∀ (i : Nat) c s, m.callers[i]? = some c → m.agent.streams[i]? = some s →
    s.arrived.length = c.2.conn.stream.length
  received : ∀ c ∈ m.callers, c.2.wire = []
  heard : ∀ key talk, m.agent.dubboChannelMap key = some talk → talk.wire = []
  connect : ∀ i, step m (.connect i) = none
  resume : ∀ i, step m (.resume i) = none
  readCallback : ∀ i, step m (.readCallback i) = none
  dubboConnect : ∀ key, step m (.dubbo key .connect) = none
  respond : ∀ key r, step m (.dubbo key (.reply r)) = none
  dubboRead : ∀ key, step m (.dubbo key .readCallback) = none

/-- The connection is up and has handed over all responses it has been sent. -/
theorem Inv.caller_of_stuck (hm : Inv serves m) (hstuck : Stuck m)
    (hc : m.callers[i]? = some (key, x)) : x.conn.connected = true ∧ x.served = x.replies := by
  have hx := (hm.caller_inv hc).sound (paProtocol_lawful key)
  have hnone : ∀ {e : Talk.Event ActRequest ActResponse γ}, m.stepCaller i e = none →
      x.step (paProtocol key) e = none := by
    intro e hstep
    cases hx' : x.step (paProtocol key) e with
    | none => rfl
    | some x' =>
      rw [stepCaller_eq_some_iff.mpr ⟨key, x, x', hc, hx', rfl⟩] at hstep
      cases hstep
  have hon : x.conn.connected = true := by
    by_contra hoff
    have hgreeting : (paProtocol key).greeting.isSome := by
      rw [paProtocol_greeting, Option.isSome_map]
      exact hm.fits i key x hc
    have hsome := hx.returns .connect (Bool.eq_false_of_not_eq_true hoff) ⟨hgreeting, trivial⟩
    rw [hnone (hstuck.connect i)] at hsome
    cases hsome
  exact ⟨hon, hx.delivered hon (hstuck.received _ (List.mem_of_getElem? hc))
    (hnone (hstuck.readCallback i))⟩

/-- The provider agent has read all requests of the connection. -/
theorem Inv.requests_of_stuck (hm : Inv serves m) (hstuck : Stuck m)
    (hc : m.callers[i]? = some (key, x)) {s : ActStream}
    (hs : m.agent.streams[i]? = some s) : s.requests = x.issued.map Prod.fst := by
  obtain ⟨stage, hstage⟩ := Option.isSome_iff_exists.mp (hm.running i s hs)
  have hwaits : streamDecoder.Waits stage s.buffer := by
    by_contra hready
    have hle : stage.numBytes ≤ s.buffer.length := Nat.le_of_not_lt hready
    obtain ⟨channels', hperform, _⟩ := hm.resume hs hstage hle
    have hstep := hstuck.resume i
    simp [step, Serving.step, Serving.resume, hs, hstage, hle, hperform] at hstep
  have harrived : s.arrived = x.conn.stream :=
    (hm.arrived i key x s hc hs).eq_of_length (hstuck.arrived i _ s hc hs)
  have hreads := (hm.agent.fetches.streams i s hs).reads stage hstage
  rw [harrived] at hreads
  obtain ⟨hon, _⟩ := hm.caller_of_stuck hstuck hc
  obtain ⟨written, hsplit, ⟨hoff, _⟩ | ⟨_, hqueue, hwhole⟩⟩ := sent_steps (hm.caller_inv hc)
    fun call hcall => (hm.keys i key x hc call hcall).1
  · rw [hon] at hoff
    cases hoff
  · rw [hsplit, hqueue, List.append_nil]
    rcases hreads.linear hwhole with ⟨os, hos, hrest⟩ | ⟨os, hos, hrest⟩
    · obtain ⟨rfl, _⟩ := hwaits.stuck hrest
      rw [hos, List.append_nil]
    · have hend : streamDecoder.Waits (.id key) [] := Nat.zero_lt_succ 3
      obtain ⟨rfl, _⟩ := hend.stuck hrest
      rw [hos, List.append_nil]

/-- The provider has answered all requests of a Dubbo connection, which has called their
callbacks. -/
theorem Inv.channel_of_stuck (hm : Inv serves m) (hstuck : Stuck m) {talk : Channel}
    (htalk : m.agent.dubboChannelMap key = some talk) {t : Nat} (hlt : t < talk.issued.length) :
    t ∈ talk.served.map Reply.ticket := by
  have htalk' := hm.agent.talk_inv htalk
  have hsound := htalk'.sound dubboProtocol_lawful
  have hnone : ∀ {e : Talk.Event Request Response (Nat × Nat)}, e.calls = [] →
      Regular serves m (.dubbo key e) → step m (.dubbo key e) = none →
      talk.step dubboProtocol e = none := by
    intro e hcalls he hstep
    cases he' : talk.step dubboProtocol e with
    | none => rfl
    | some talk' =>
      obtain ⟨m', hm', _⟩ := hm.step_dubbo he htalk he' hcalls
      cases hstep.symm.trans hm'
  have hon : talk.conn.connected = true := by
    by_contra hoff
    have hsome := hsound.returns .connect (Bool.eq_false_of_not_eq_true hoff) ⟨rfl, trivial⟩
    rw [hnone (e := .connect) rfl trivial (hstuck.dubboConnect key)] at hsome
    cases hsome
  have hqueue : talk.conn.queue = [] := by
    obtain ⟨_, _, ⟨hoff, _⟩ | ⟨_, hqueue, _⟩⟩ := htalk'.sent
    · rw [hon] at hoff
      cases hoff
    · exact hqueue
  have hserved := hsound.delivered hon (hstuck.heard key talk htalk)
    (hnone (e := .readCallback) rfl trivial (hstuck.dubboRead key))
  rw [hserved]
  by_contra hnew
  let r : Reply Response := ⟨t, {}, []⟩
  have hcan : r.ticket + talk.conn.queue.length < talk.issued.length ∧ talk.conn.connected ∧
      r.ticket ∉ talk.replies.map Reply.ticket := ⟨by simpa [r, hqueue] using hlt, hon, hnew⟩
  have hagent := Serving.dubbo_eq_some_iff.mpr
    ⟨(show (Talk.Event.reply r : Talk.Event Request Response (Nat × Nat)).calls = [] from rfl),
      talk, _, m.agent.streams, htalk, if_pos hcan, by
        rw [List.drop_length]
        rfl, rfl⟩
  have hstep := hstuck.respond key r
  simp [step, hagent] at hstep

/-- Once nothing is left to do, every call has been answered. -/
theorem Inv.answered_of_stuck (hm : Inv serves m) (hstuck : Stuck m) {j : Nat}
    (hj : j < (m.issued i).length) : j ∈ (m.answered i).map Prod.fst := by
  simp only [issued, answered] at hj ⊢
  cases hc : m.callers[i]? with
  | none =>
    rw [hc] at hj
    cases hj
  | some c =>
    obtain ⟨key, x⟩ := c
    rw [hc, Option.elim_some] at hj
    obtain ⟨s, hs⟩ := hm.exists_stream hc
    have hrequests := hm.requests_of_stuck hstuck hc hs
    obtain ⟨_, hserved⟩ := hm.caller_of_stuck hstuck hc
    have hrequest : s.requests[j]? = some x.issued[j].1 := by
      rw [hrequests, List.getElem?_map, List.getElem?_eq_getElem hj]
      rfl
    have hstream := hm.agent.fetches.streams i s hs
    have hkey : s.key = some key := by
      cases hsome : s.key with
      | none =>
        rw [hstream.idle hsome] at hrequest
        cases hrequest
      | some key' => rw [hm.key_eq hc hs hsome]
    obtain ⟨talk, htalk, hissued⟩ := hstream.shared key hkey
    have hmem : (makeDubboRequest x.issued[j].1, (i, j)) ∈
        ownedBy Serving.caller i talk.issued := by
      rw [hissued]
      apply List.mem_of_getElem? (i := j)
      rw [List.getElem?_mapIdx, hrequest]
      rfl
    obtain ⟨t, ht⟩ := List.mem_iff_getElem?.mp (mem_ownedBy.mp hmem).1
    obtain ⟨r, hr, rfl⟩ := List.mem_map.mp
      (hm.channel_of_stuck hstuck htalk (List.getElem?_eq_some_iff.mp ht).1)
    have hcalled := (hm.agent.talk_inv htalk).exists_made hr ht
    have hreplies := hm.replies i key x hc
    rw [called, htalk, Option.elim_some] at hreplies
    rw [Option.elim_some, List.map_map, hserved, hreplies, List.map_map]
    exact List.mem_map.mpr ⟨_, mem_ownedBy.mpr ⟨hcalled, rfl⟩, rfl⟩

end

/-! ## Two connections for one key -/

/-- A provider that has one answer to each body. -/
def answering (answer : Bytes → Bytes) (body result : Bytes) : Prop := result = answer body

/-- `Regular`, by computation. -/
def checkRegular (answer : Bytes → Bytes) (m : PyMesh γ) : Event γ → Bool
  | .create key => (encodeActKey key).isSome
  | .fetch i request _ => m.callers[i]?.all fun c => decide (request.key = c.1) &&
      request.encodeBody.isSome && (makeDubboRequest request).encode.isSome
  | .dubbo key (.reply r) => (m.agent.dubboChannelMap key).all fun talk =>
      talk.issued[r.ticket]?.all fun call =>
        checkDubboFrame call.1.id r && decide (r.value.result = answer call.1.body)
  | _ => true

/-- `FreshIds`, by computation. -/
def checkFresh (m : PyMesh γ) : Event γ → Bool
  | .fetch i request _ => m.callers[i]?.all fun c => m.callers.all fun c' =>
      c'.1 != c.1 || (c'.2.conn.callbacks request.id).isNone
  | _ => true

def checkAllowed (answer : Bytes → Bytes) (m : PyMesh γ) (e : Event γ) : Bool :=
  checkRegular answer m e && checkFresh m e

section
variable {answer : Bytes → Bytes} {m : PyMesh γ} {e : Event γ}

theorem regular_of_check (h : checkRegular answer m e = true) :
    Regular (answering answer) m e := by
  cases e with
  | create key => exact h
  | fetch i request callback =>
    intro c hc
    simp only [checkRegular, hc, Option.all_some, Bool.and_eq_true, decide_eq_true_eq] at h
    exact ⟨h.1.1, h.1.2, h.2⟩
  | dubbo key e =>
    cases e with
    | reply r =>
      intro talk htalk call hcall
      simp only [checkRegular, htalk, hcall, Option.all_some, Bool.and_eq_true,
        decide_eq_true_eq] at h
      exact ⟨dubboFrame_of_check _ r h.1, h.2⟩
    | _ => trivial
  | _ => trivial

theorem fresh_of_check (h : checkFresh m e = true) : FreshIds m e := by
  cases e with
  | fetch i request callback =>
    intro c hc c' hc' hkey
    simp only [checkFresh, hc, Option.all_some, List.all_eq_true] at h
    simpa [hkey] using h c' hc'
  | _ => trivial

theorem allowed_of_check (h : checkAllowed answer m e = true) :
    Allowed (answering answer) m e := by
  rw [checkAllowed, Bool.and_eq_true] at h
  exact ⟨regular_of_check h.1, fresh_of_check h.2⟩

end

def theKey : ChannelKey := ⟨[73], [77], [80]⟩

/-- A provider whose answers tell the bodies apart. -/
def bodyLength (body : Bytes) : Bytes := [UInt8.ofNat body.length]

/-- One call on each of two connections, read by the provider agent field by field; the bodies
differ in length. -/
def twoCallers (id id' : Nat) : List (Event Nat) :=
  [.create theKey, .create theKey, .fetch 0 ⟨[73], [77], [80], id, []⟩ 10, .connect 0, .connect 1,
    .fetch 1 ⟨[73], [77], [80], id', [80]⟩ 20, .arrive 0 60, .arrive 1 60] ++
    List.replicate 10 (.resume 0) ++ List.replicate 10 (.resume 1) ++ [.dubbo theKey .connect]

/-- The provider answers the later call first, and the mesh carries both answers back. -/
def laterFirst : List (Event Nat) :=
  [.dubbo theKey (.reply (dubboReply 1 2 [115])), .dubbo theKey (.reply (dubboReply 0 1 [114])),
    .dubbo theKey (.receive 40), .dubbo theKey .readCallback, .dubbo theKey .readCallback,
    .dubbo theKey .readCallback, .dubbo theKey .readCallback, .receive 0 60, .receive 1 60,
    .readCallback 0, .readCallback 1, .readCallback 1, .readCallback 0, .readCallback 0,
    .readCallback 1]

/-- The provider has answered both calls, and the provider agent has read the first answer. -/
def firstOnly : List (Event Nat) :=
  [.dubbo theKey (.reply (dubboReply 0 7 [114])), .dubbo theKey (.reply (dubboReply 1 7 [115])),
    .dubbo theKey (.receive 40), .dubbo theKey .readCallback, .dubbo theKey .readCallback,
    .receive 1 60, .readCallback 1, .readCallback 1, .readCallback 1]

/-- Seen from the consumer agents, the mesh is nothing but remote calls: each callback is made for
one of the calls on that connection, at most once, with the id of this call and what the provider
has answered. -/
theorem remote_calls_of_reached {serves : Bytes → Bytes → Prop} {m : PyMesh γ}
    (h : Reached serves m) :
    ∃ r, Remote.Reached (Serves serves) r ∧ Shows m r :=
  ⟨remote m, remote_of_inv_reached h, (inv_of_reached h).shows⟩

theorem remote_calls_of_reached_two_callers : ∃ m : PyMesh Nat,
    Reached (answering bodyLength) m ∧
      m.made 0 = [(10, ⟨1, [114]⟩)] ∧ m.made 1 = [(20, ⟨2, [115]⟩)] ∧
      ∃ r, Remote.Reached (Serves (answering bodyLength)) r ∧ Shows m r := by
  have hrun : ((twoCallers 1 2 ++ laterFirst).foldlM
      (fun m e => if checkAllowed bodyLength m e then step m e else none) {}).map
      (fun m => (m.made 0, m.made 1)) = some ([(10, ⟨1, [114]⟩)], [(20, ⟨2, [115]⟩)]) := by
    decide +kernel
  obtain ⟨m, hreached, hmade⟩ := Runs.exists_of_foldlM (fun _ _ _ => allowed_of_check) hrun
  obtain ⟨hfirst, hsecond⟩ := Prod.mk.inj hmade
  exact ⟨m, hreached, hfirst, hsecond, remote_calls_of_reached hreached⟩

/-- With one id on both connections the second is called back with the answer to the request of the
first, and the answer to its own raises a `KeyError` in the provider agent. -/
theorem shared_id_misanswered_on_callers : ∃ m : PyMesh Nat,
    Runs (Regular (answering bodyLength)) step {} m ∧
      m.made 0 = [] ∧ m.made 1 = [(20, ⟨7, [114]⟩)] ∧
      (¬ ∃ r, Remote.Reached (Serves (answering bodyLength)) r ∧ Shows m r) ∧
      Serving.Can m.agent (.dubbo theKey .readCallback) ∧
      step m (.dubbo theKey .readCallback) = none := by
  have hrun : ((twoCallers 7 7 ++ firstOnly).foldlM
      (fun m e => if checkRegular bodyLength m e then step m e else none) {}).map
      (fun m => (m.made 1, (m.issued 1).map fun call => bodyLength (makeDubboRequest call.1).body,
        (m.made 0).isEmpty && m.agent.canRead theKey &&
          (step m (.dubbo theKey .readCallback)).isNone)) =
      some ([(20, ⟨7, [114]⟩)], [[115]], true) := by decide +kernel
  obtain ⟨m, hruns, hm⟩ := Runs.exists_of_foldlM (fun _ _ _ => regular_of_check) hrun
  simp only [Prod.mk.injEq, Bool.and_eq_true, List.isEmpty_iff,
    Option.isNone_iff_eq_none] at hm
  obtain ⟨hsecond, hanswer, ⟨hfirst, hread⟩, hraises⟩ := hm
  refine ⟨m, hruns, hfirst, hsecond, ?_, Serving.can_of_canRead hread, hraises⟩
  rintro ⟨r, hr, hshows⟩
  have hmade : (20, ⟨7, [114]⟩) ∈ m.made 1 := hsecond ▸ List.mem_singleton_self _
  have hanswers := hshows.answers 1
  rw [← hshows.issued] at hanswers
  obtain ⟨call, hcall, result, hserves, hmade⟩ := hr.sound.served
    (fun call result made => made = (call.2, ⟨call.1.id, result⟩)) hanswers hmade
  rw [hshows.issued] at hcall
  have hresult : result ∈ [[115]] := by
    rw [← hanswer, show result = _ from hserves]
    exact List.mem_map_of_mem hcall
  obtain rfl := List.mem_singleton.mp hresult
  cases congrArg (fun made => made.2.result) hmade

/-- `Stuck`, by computation, when all connections are for one key. -/
def checkStuck (m : PyMesh Nat) (key : ChannelKey) : Bool :=
  m.agent.streams.all (fun s => decide (s.key = some key)) &&
    (m.callers.zip m.agent.streams).all (fun p =>
      decide (p.2.arrived.length = p.1.2.conn.stream.length ∧ p.1.2.wire = [])) &&
    (List.range m.callers.length).all (fun i => (step m (.connect i)).isNone &&
      (step m (.resume i)).isNone && (step m (.readCallback i)).isNone) &&
    (m.agent.dubboChannelMap key).all (fun talk => decide (talk.wire = []) &&
      (step m (.dubbo key .connect)).isNone && (step m (.dubbo key .readCallback)).isNone &&
      (List.range talk.issued.length).all fun t => decide (t ∈ talk.replies.map Reply.ticket))

section
variable {serves : Bytes → Bytes → Prop} {m : PyMesh Nat} {key : ChannelKey}

theorem step_dubbo_none {e : Talk.Event Request Response (Nat × Nat)}
    (h : ∀ talk, m.agent.dubboChannelMap key = some talk → talk.step dubboProtocol e = none) :
    step m (.dubbo key e) = none := by
  cases hstep : step m (.dubbo key e) with
  | none => rfl
  | some m' =>
    obtain ⟨agent, hagent, _⟩ := Option.bind_eq_some_iff.mp hstep
    obtain ⟨_, talk, talk', _, htalk, htalk', _⟩ := Serving.dubbo_eq_some_iff.mp hagent
    cases (h talk htalk).symm.trans htalk'

theorem stuck_of_check (hm : Inv serves m) (h : checkStuck m key = true) : Stuck m := by
  simp only [checkStuck, Bool.and_eq_true, List.all_eq_true, decide_eq_true_eq,
    Option.all_eq_true, List.mem_range, Option.isNone_iff_eq_none] at h
  obtain ⟨⟨⟨hkeys, hzip⟩, hcallers⟩, hchannel⟩ := h
  have hkey : ∀ key' talk, m.agent.dubboChannelMap key' = some talk → key' = key := by
    intro key' talk htalk
    obtain ⟨i, s, hs, hkey'⟩ := hm.agent.fetches.opened key' talk htalk
    exact Option.some.inj (hkey'.symm.trans (hkeys s (List.mem_of_getElem? hs)))
  have hpair : ∀ (i : Nat) c s, m.callers[i]? = some c → m.agent.streams[i]? = some s →
      s.arrived.length = c.2.conn.stream.length ∧ c.2.wire = [] := by
    intro i c s hc hs
    apply hzip (c, s) (List.mem_of_getElem? (i := i) _)
    rw [List.getElem?_zip_eq_some]
    exact ⟨hc, hs⟩
  have hcaller : ∀ i e, (i < m.callers.length → m.stepCaller i e = none) →
      m.stepCaller i e = none := by
    intro i e hnone
    cases hstep : m.stepCaller i e with
    | none => rfl
    | some m' =>
      obtain ⟨key', x, x', hc, _⟩ := stepCaller_eq_some_iff.mp hstep
      cases (hnone (List.getElem?_eq_some_iff.mp hc).1).symm.trans hstep
  have hdubbo : ∀ key' e, (∀ talk, m.agent.dubboChannelMap key = some talk →
      step m (.dubbo key e) = none) → step m (.dubbo key' e) = none := by
    intro key' e hnone
    cases htalk : m.agent.dubboChannelMap key' with
    | none => exact step_dubbo_none (by simp [htalk])
    | some talk =>
      obtain rfl := hkey key' talk htalk
      exact hnone talk htalk
  refine ⟨fun i c s hc hs => (hpair i c s hc hs).1, ?_, ?_, ?_, ?_, ?_, ?_, ?_, ?_⟩
  · intro c hmem
    obtain ⟨i, hc⟩ := List.mem_iff_getElem?.mp hmem
    obtain ⟨s, hs⟩ := hm.exists_stream hc
    exact (hpair i c s hc hs).2
  · intro key' talk htalk
    obtain rfl := hkey key' talk htalk
    exact (hchannel talk htalk).1.1.1
  · exact fun i => hcaller i _ fun hlt => (hcallers i hlt).1.1
  · intro i
    rcases Nat.lt_or_ge i m.callers.length with hlt | hge
    · exact (hcallers i hlt).1.2
    · rw [← hm.length] at hge
      simp [step, Serving.step, Serving.resume, List.getElem?_eq_none hge]
  · exact fun i => hcaller i _ fun hlt => (hcallers i hlt).2
  · exact fun key' => hdubbo key' _ fun talk htalk => (hchannel talk htalk).1.1.2
  · intro key' r
    apply hdubbo
    intro talk htalk
    apply step_dubbo_none
    intro talk' htalk'
    obtain rfl : talk = talk' := Option.some.inj (htalk.symm.trans htalk')
    have hall := (hchannel talk htalk).2
    simp only [Talk.step, ite_eq_right_iff, reduceCtorEq, imp_false]
    rintro ⟨hlt, _, hnew⟩
    exact hnew (hall r.ticket (by omega))
  · exact fun key' => hdubbo key' _ fun talk htalk => (hchannel talk htalk).1.2

end

/-- Every call has been answered once and called back, and neither a consumer agent nor the provider
agent waits for anything. -/
structure Answered (serves : Bytes → Bytes → Prop) (m : PyMesh γ) : Prop where
  all : ∃ r, Remote.Reached (Serves serves) r ∧ Shows m r ∧
    ∀ i, ((r.answers i).map Prod.fst).Perm (List.range (m.issued i).length)
  callers : ∀ (i : Nat) key x, m.callers[i]? = some (key, x) →
    ∀ id, x.conn.callbacks id = none ∧ x.conn.prof id = none
  channels : ∀ key talk, m.agent.dubboChannelMap key = some talk →
    ∀ id, talk.conn.callbacks id = none ∧ talk.conn.prof id = none

/-- Once nothing is left to do, each callback has been called, and once only. -/
theorem all_answered_of_stuck {serves : Bytes → Bytes → Prop} {m : PyMesh γ}
    (h : Reached serves m) (hstuck : Stuck m) : Answered serves m := by
  have hm := inv_of_reached h
  refine ⟨⟨remote m, remote_of_inv_reached h, hm.shows, ?_⟩, ?_, ?_⟩
  · intro i
    apply (List.perm_ext_iff_of_nodup (hm.sound.once i) List.nodup_range).mpr
    intro j
    rw [List.mem_range]
    exact ⟨fun hmem => hm.sound.answered_lt hmem, fun hj => hm.answered_of_stuck hstuck hj⟩
  · intro i key x hc
    apply (hm.caller_inv hc).idle
    intro j hj
    have hmem := hm.answered_of_stuck hstuck (i := i) (j := j) (by
      rw [issued, hc]
      exact hj)
    rwa [answered, hc, Option.elim_some, List.map_map] at hmem
  · intro key talk htalk
    exact (hm.agent.talk_inv htalk).idle fun t hlt => hm.channel_of_stuck hstuck htalk hlt

theorem all_answered_of_stuck_two_callers : ∃ m : PyMesh Nat,
    Reached (answering bodyLength) m ∧ Stuck m ∧
      m.made 0 = [(10, ⟨1, [114]⟩)] ∧ m.made 1 = [(20, ⟨2, [115]⟩)] ∧
      Answered (answering bodyLength) m := by
  have hrun : ((twoCallers 1 2 ++ laterFirst).foldlM
      (fun m e => if checkAllowed bodyLength m e then step m e else none) {}).map
      (fun m => (checkStuck m theKey, m.made 0, m.made 1)) =
      some (true, [(10, ⟨1, [114]⟩)], [(20, ⟨2, [115]⟩)]) := by decide +kernel
  obtain ⟨m, hreached, hm⟩ := Runs.exists_of_foldlM (fun _ _ _ => allowed_of_check) hrun
  simp only [Prod.mk.injEq] at hm
  obtain ⟨hcheck, hfirst, hsecond⟩ := hm
  have hstuck := stuck_of_check (inv_of_reached hreached) hcheck
  exact ⟨m, hreached, hstuck, hfirst, hsecond, all_answered_of_stuck hreached hstuck⟩

end PyMesh

end PyAgent.Python
