import PyAgent.PythonCalls

/-!
# Runs of the connections of the Python agents

What each event adds to a connection, and what a user of it can rely on in any run.
-/

namespace PyAgent.Python
set_option autoImplicit false

open Streaming

/-! ## What the functions change -/

namespace Connection
variable {ρ σ ν γ : Type} {P : Protocol ρ σ ν} {conn conn' : Connection ρ σ ν γ}

theorem writeAll_eq_some {queue : List ρ} (h : conn.writeAll P queue = some conn') :
    ∃ bodies prof, queue.mapM P.encode = some bodies ∧
      conn' = { conn with stream := conn.stream ++ bodies.flatten, prof := prof } := by
  induction queue generalizing conn with
  | nil =>
    obtain rfl := Option.some.inj h
    exact ⟨[], conn.prof, rfl, by simp⟩
  | cons r queue ih =>
    obtain ⟨conn₁, hstamp, h⟩ := Option.bind_eq_some_iff.mp h
    obtain ⟨body, hbody, h⟩ := Option.bind_eq_some_iff.mp h
    obtain ⟨_, _, rfl⟩ := Option.map_eq_some_iff.mp hstamp
    obtain ⟨bodies, prof, hbodies, rfl⟩ := ih h
    refine ⟨body :: bodies, prof, ?_, by simp⟩
    rw [List.mapM_cons, hbody, hbodies]
    rfl

theorem processQueue_eq_some (h : conn.processQueue P = some conn') :
    conn.connected = false ∧ conn' = conn ∨ conn.connected = true ∧
      ∃ bodies prof, conn.queue.mapM P.encode = some bodies ∧ conn' = { conn with
        queue := []
        stream := conn.stream ++ bodies.flatten
        prof := prof } := by
  unfold processQueue at h
  split at h
  · rename_i hon
    exact Or.inr ⟨hon, writeAll_eq_some h⟩
  · rename_i hoff
    exact Or.inl ⟨by simpa using hoff, (Option.some.inj h).symm⟩

theorem processQueue_called (h : conn.processQueue P = some conn') :
    conn'.called = conn.called := by
  rcases processQueue_eq_some h with ⟨_, rfl⟩ | ⟨_, _, _, _, rfl⟩ <;> rfl

theorem processQueue_stream (h : conn.processQueue P = some conn') :
    conn.stream <+: conn'.stream := by
  rcases processQueue_eq_some h with ⟨_, rfl⟩ | ⟨_, _, _, _, rfl⟩
  · exact List.prefix_refl _
  · exact List.prefix_append _ _

theorem readCallback_keeps (h : conn.readCallback P = some conn') :
    conn.called <+: conn'.called ∧ conn'.stream = conn.stream ∧ conn'.queue = conn.queue ∧
      conn'.connected = conn.connected := by
  unfold readCallback at h
  split at h
  · cases h
  · split at h
    · split at h
      · obtain ⟨conn₁, hstamp, rfl⟩ := Option.map_eq_some_iff.mp h
        obtain ⟨_, _, rfl⟩ := Option.map_eq_some_iff.mp hstamp
        exact ⟨List.prefix_refl _, rfl, rfl, rfl⟩
      · obtain rfl := Option.some.inj h
        exact ⟨List.prefix_refl _, rfl, rfl, rfl⟩
      · obtain ⟨conn₁, hanswer, rfl⟩ := Option.map_eq_some_iff.mp h
        unfold answer at hanswer
        split at hanswer
        · obtain rfl := Option.some.inj hanswer
          exact ⟨List.prefix_append _ _, rfl, rfl, rfl⟩
        · cases hanswer
    · cases h

end Connection

/-! ## What a step adds -/

namespace Talk
variable {ρ σ ν γ : Type} {P : Protocol ρ σ ν} {x x' : Talk ρ σ ν γ}

/-- The calls that an event makes. -/
def Event.calls : Event ρ ν γ → List (ρ × γ)
  | .fetch r callback => [(r, callback)]
  | _ => []

theorem Event.calls_eq_nil {e : Event ρ ν γ} (h : ∀ r callback, e ≠ .fetch r callback) :
    e.calls = [] := by
  cases e with
  | fetch r callback => exact absurd rfl (h r callback)
  | _ => rfl

/-- The responses that an event puts on the wire. -/
def Event.replies : Event ρ ν γ → List (Reply ν)
  | .reply r => [r]
  | _ => []

structure Grows (x : Talk ρ σ ν γ) (e : Event ρ ν γ) (x' : Talk ρ σ ν γ) : Prop where
  issued : x'.issued = x.issued ++ e.calls
  replies : x'.replies = x.replies ++ e.replies
  called : x.conn.called <+: x'.conn.called
  stream : x.conn.stream <+: x'.conn.stream

theorem step_grows {e : Event ρ ν γ} (h : step P x e = some x') : Grows x e x' := by
  cases e with
  | connect =>
    simp only [step] at h
    split at h
    · cases h
    · obtain ⟨conn, hconn, rfl⟩ := Option.map_eq_some_iff.mp h
      obtain ⟨greeting, _, hconn⟩ := Option.bind_eq_some_iff.mp hconn
      obtain ⟨conn', hqueue, hconn⟩ := Option.bind_eq_some_iff.mp hconn
      obtain rfl := Option.some.inj hconn
      have hcalled := Connection.processQueue_called hqueue
      have hstream := Connection.processQueue_stream hqueue
      refine ⟨(List.append_nil _).symm, (List.append_nil _).symm, ?_, ?_⟩
      · rw [show conn'.called = x.conn.called from hcalled]
      · exact (List.prefix_append _ greeting).trans hstream
  | fetch r callback =>
    obtain ⟨conn, hconn, rfl⟩ := Option.map_eq_some_iff.mp h
    have hcalled := Connection.processQueue_called hconn
    have hstream := Connection.processQueue_stream hconn
    refine ⟨rfl, (List.append_nil _).symm, ?_, hstream⟩
    rw [show conn.called = x.conn.called from hcalled]
  | reply r =>
    simp only [step, Option.ite_none_right_eq_some, Option.some.injEq] at h
    obtain ⟨_, rfl⟩ := h
    exact ⟨(List.append_nil _).symm, rfl, List.prefix_refl _, List.prefix_refl _⟩
  | receive n =>
    obtain rfl := Option.some.inj h
    exact ⟨(List.append_nil _).symm, (List.append_nil _).symm, List.prefix_refl _,
      List.prefix_refl _⟩
  | readCallback =>
    obtain ⟨conn, hconn, rfl⟩ := Option.map_eq_some_iff.mp h
    obtain ⟨hcalled, hstream, _⟩ := Connection.readCallback_keeps hconn
    refine ⟨(List.append_nil _).symm, (List.append_nil _).symm, hcalled, ?_⟩
    rw [show conn.stream = x.conn.stream from hstream]

/-- Only the read callback calls callbacks. -/
theorem step_called {e : Event ρ ν γ} (h : step P x e = some x') (hread : e ≠ .readCallback) :
    x'.conn.called = x.conn.called := by
  cases e with
  | connect =>
    simp only [step] at h
    split at h
    · cases h
    · obtain ⟨conn, hconn, rfl⟩ := Option.map_eq_some_iff.mp h
      obtain ⟨greeting, _, hconn⟩ := Option.bind_eq_some_iff.mp hconn
      obtain ⟨conn', hqueue, hconn⟩ := Option.bind_eq_some_iff.mp hconn
      obtain rfl := Option.some.inj hconn
      have hcalled := Connection.processQueue_called hqueue
      exact hcalled
  | fetch r callback =>
    obtain ⟨conn, hconn, rfl⟩ := Option.map_eq_some_iff.mp h
    have hcalled := Connection.processQueue_called hconn
    exact hcalled
  | reply r =>
    simp only [step, Option.ite_none_right_eq_some, Option.some.injEq] at h
    obtain ⟨_, rfl⟩ := h
    rfl
  | receive n =>
    obtain rfl := Option.some.inj h
    rfl
  | readCallback => exact absurd rfl hread

/-- Whatever happens, what has been written is the greeting and the first requests. -/
theorem Sent.step (hx : Sent P x) {e : Event ρ ν γ} (h : step P x e = some x') : Sent P x' := by
  obtain ⟨written, hsplit, hsent⟩ := hx
  cases e with
  | connect =>
    simp only [Talk.step, Option.ite_none_left_eq_some, Bool.not_eq_true] at h
    obtain ⟨hoff, h⟩ := h
    obtain ⟨conn, hconn, rfl⟩ := Option.map_eq_some_iff.mp h
    obtain ⟨greeting, hgreeting, hconn⟩ := Option.bind_eq_some_iff.mp hconn
    obtain ⟨conn', hqueue, hconn⟩ := Option.bind_eq_some_iff.mp hconn
    obtain rfl := Option.some.inj hconn
    rcases hsent with ⟨_, rfl, hstream⟩ | ⟨hon, _⟩
    · rcases Connection.processQueue_eq_some hqueue with ⟨hoff, _⟩ | ⟨_, bodies, _, hbodies, rfl⟩
      · cases hoff
      · refine ⟨x.conn.queue, by simpa using hsplit, Or.inr ⟨rfl, rfl, greeting, bodies, hgreeting,
          hbodies, ?_⟩⟩
        simp [hstream]
    · rw [hoff] at hon
      cases hon
  | fetch r callback =>
    obtain ⟨conn, hconn, rfl⟩ := Option.map_eq_some_iff.mp h
    rcases Connection.processQueue_eq_some hconn with ⟨hoff, rfl⟩ | ⟨hon, more, _, hmore, rfl⟩
    · rcases hsent with hsent | ⟨hon, _⟩
      · exact ⟨written, by simp [hsplit], Or.inl hsent⟩
      · rw [show x.conn.connected = false from hoff] at hon
        cases hon
    · rcases hsent with ⟨hoff, _⟩ | ⟨_, hqueue, greeting, bodies, hgreeting, hbodies, hstream⟩
      · rw [show x.conn.connected = true from hon] at hoff
        cases hoff
      · rw [hqueue] at hmore
        refine ⟨written ++ [r], by simp [hsplit, hqueue], Or.inr ⟨hon, rfl, greeting,
          bodies ++ more, hgreeting, ?_, ?_⟩⟩
        · rw [List.mapM_append, hbodies, show [r].mapM P.encode = some more from hmore]
          rfl
        · simp [hstream]
  | reply r =>
    simp only [Talk.step, Option.ite_none_right_eq_some, Option.some.injEq] at h
    obtain ⟨_, rfl⟩ := h
    exact ⟨written, hsplit, hsent⟩
  | receive n =>
    obtain rfl := Option.some.inj h
    exact ⟨written, hsplit, hsent⟩
  | readCallback =>
    obtain ⟨conn, hconn, rfl⟩ := Option.map_eq_some_iff.mp h
    obtain ⟨_, hstream, hqueue, hconnected⟩ := Connection.readCallback_keeps hconn
    refine ⟨written, ?_, ?_⟩
    · rw [hqueue]
      exact hsplit
    · rw [hconnected, hstream, hqueue]
      exact hsent

/-- Only a fetch has an id of its own. -/
theorem fresh_of_calls {e : Event ρ ν γ} (h : e.calls = []) : FreshIds P x e := by
  cases e with
  | fetch r callback => cases h
  | _ => trivial

theorem served_subset (x : Talk ρ σ ν γ) : x.served ⊆ x.replies := List.take_subset _ _

theorem Inv.served_initial (hx : Inv P x) {e : Event ρ ν γ} (h : step P x e = some x') :
    x.served <+: x'.served := by
  have htake : x.served = x'.replies.take x.conn.called.length := by
    rw [(step_grows h).replies, List.take_append_of_le_length hx.called_le]
    rfl
  rw [htake]
  exact List.take_prefix_take_left (step_grows h).called.length_le

/-- The calls that wait after an event have waited before, or it has made them. -/
theorem Inv.open_of_step (hx : Inv P x) {e : Event ρ ν γ} (h : step P x e = some x') {j : Nat}
    {call : ρ × γ} (hopen : x'.ledger.Open j call) :
    x.ledger.Open j call ∨
      x.issued.length ≤ j ∧ e.calls[j - x.issued.length]? = some call := by
  obtain ⟨hcall, hserved⟩ := hopen
  rw [show x'.ledger.issued = x.issued ++ e.calls from (step_grows h).issued] at hcall
  rcases Nat.lt_or_ge j x.issued.length with hlt | hge
  · rw [List.getElem?_append_left hlt] at hcall
    refine Or.inl ⟨hcall, ?_⟩
    intro hmem
    exact hserved (((hx.served_initial h).map _).subset hmem)
  · rw [List.getElem?_append_right hge] at hcall
    exact Or.inr ⟨hge, hcall⟩

/-- Any number of responses on the wire. -/
theorem Reached.replies (h : Reached P x) {rs : List (Reply ν)}
    (hon : rs ≠ [] → x.conn.connected = true)
    (hlt : ∀ r ∈ rs, r.ticket + x.conn.queue.length < x.issued.length)
    (hframe : ∀ r ∈ rs, ∀ call, x.issued[r.ticket]? = some call →
      P.Frame (P.id call.1) r.value r.bytes)
    (honce : ((x.replies ++ rs).map Reply.ticket).Nodup) :
    Reached P { x with
      wire := x.wire ++ (rs.map Reply.bytes).flatten
      replies := x.replies ++ rs } := by
  induction rs generalizing x with
  | nil => simpa using h
  | cons r rs ih =>
    have hnew : r.ticket ∉ x.replies.map Reply.ticket := by
      rw [List.map_append, List.nodup_append] at honce
      intro hmem
      exact honce.2.2 _ hmem _ List.mem_cons_self rfl
    have hcan : r.ticket + x.conn.queue.length < x.issued.length ∧ x.conn.connected ∧
        r.ticket ∉ x.replies.map Reply.ticket :=
      ⟨hlt r List.mem_cons_self, hon (by simp), hnew⟩
    have hstep : Reached P { x with wire := x.wire ++ r.bytes, replies := x.replies ++ [r] } :=
      h.tail ⟨.reply r, ⟨hframe r List.mem_cons_self, trivial⟩, if_pos hcan⟩
    have hrest := ih hstep (fun _ => hcan.2.1) (fun r' hr' => hlt r' (List.mem_cons_of_mem _ hr'))
      (fun r' hr' => hframe r' (List.mem_cons_of_mem _ hr')) (by simpa using honce)
    simpa using hrest

/-! ## The callbacks called -/

theorem Inv.made (hx : Inv P x) {made : γ × ν} (h : made ∈ x.conn.called) :
    ∃ r call, r ∈ x.served ∧ x.issued[r.ticket]? = some call ∧ made = (call.2, r.value) ∧
      P.Frame (P.id call.1) r.value r.bytes := by
  obtain ⟨n, hn⟩ := List.mem_iff_getElem?.mp h
  obtain ⟨hlt, rfl⟩ := List.getElem?_eq_some_iff.mp hn
  have hlt' : n < x.served.length := by rwa [hx.called.length_eq]
  obtain ⟨call, hcall, hmade, _⟩ := hx.called.get hlt' hlt
  have hmem : x.served[n] ∈ x.served := List.getElem_mem hlt'
  obtain ⟨call', hcall', hframe⟩ := hx.replied _ (served_subset x hmem)
  obtain rfl : call = call' := Option.some.inj (hcall.symm.trans hcall')
  exact ⟨_, call, hmem, hcall, hmade, hframe⟩

theorem Inv.exists_made (hx : Inv P x) {r : Reply ν} (hr : r ∈ x.served) {call : ρ × γ}
    (hcall : x.issued[r.ticket]? = some call) : (call.2, r.value) ∈ x.conn.called := by
  obtain ⟨n, hn⟩ := List.mem_iff_getElem?.mp hr
  obtain ⟨hlt, rfl⟩ := List.getElem?_eq_some_iff.mp hn
  have hlt' : n < x.conn.called.length := by rwa [← hx.called.length_eq]
  obtain ⟨call', hcall', hmade, _⟩ := hx.called.get hlt hlt'
  obtain rfl : call = call' := Option.some.inj (hcall.symm.trans hcall')
  have hmem := List.getElem_mem hlt'
  rw [show x.conn.called[n] = (call.2, x.served[n].value) from hmade] at hmem
  exact hmem

/-- When all requests have been answered, nothing is registered any more. -/
theorem Inv.idle (hx : Inv P x) (hall : ∀ j < x.issued.length, j ∈ x.served.map Reply.ticket)
    (id : Int) : x.conn.callbacks id = none ∧ x.conn.prof id = none := by
  have hnone : ¬ (x.conn.callbacks id).isSome := by
    intro hsome
    obtain ⟨j, call, hopen, _⟩ := (hx.callbacks.isSome_iff id).mp hsome
    exact hopen.2 (hall j (List.getElem?_eq_some_iff.mp hopen.1).1)
  exact ⟨by simpa using hnone, by simpa using mt (hx.prof id).mp hnone⟩

/-- If no callback was registered for two calls, none is called twice. -/
theorem Inv.called_nodup (hx : Inv P x) (hinj : ∀ (j j' : Nat) (call call' : ρ × γ),
    x.issued[j]? = some call → x.issued[j']? = some call' → call.2 = call'.2 → j = j') :
    (x.conn.called.map Prod.fst).Nodup := by
  let rel : Nat → γ → Prop := fun j callback => ∃ call, x.issued[j]? = some call ∧
    call.2 = callback
  have hrel : Relator.BiUnique rel := by
    constructor
    · rintro j j' callback ⟨call, hcall, rfl⟩ ⟨call', hcall', heq⟩
      exact hinj j j' call call' hcall hcall' heq.symm
    · rintro j callback callback' ⟨call, hcall, rfl⟩ ⟨call', hcall', rfl⟩
      rw [Option.some.inj (hcall.symm.trans hcall')]
  have hall : List.Forall₂ rel (x.served.map Reply.ticket) (x.conn.called.map Prod.fst) := by
    rw [List.forall₂_map_left_iff, List.forall₂_map_right_iff]
    refine hx.called.imp ?_
    rintro r made ⟨call, hcall, rfl, _⟩
    exact ⟨call, hcall, rfl⟩
  apply (List.rel_nodup hrel hall).mp
  exact hx.once.sublist ((List.take_sublist _ _).map _)

/-! ## What a user of a connection can rely on -/

/-- Nothing is lost, written twice or written before the greeting; the responses read so far were
handed to the callbacks of their own requests, each of them once and with the id of the request;
`_callbacks` and `prof` hold the ids that wait for one; nothing that can happen and is allowed
raises an exception; and once there is nothing more to read, every response has been handed over. -/
structure Sound (P : Protocol ρ σ ν) (x : Talk ρ σ ν γ) : Prop where
  sent : Sent P x
  called : List.Forall₂ (CalledBack P x.issued) x.served x.conn.called
  once : (x.replies.map Reply.ticket).Nodup
  waiting : ∀ id, (x.conn.callbacks id).isSome ↔
    ∃ j call, x.ledger.Open j call ∧ P.id call.1 = id
  registered : ∀ id, (x.conn.prof id).isSome ↔ (x.conn.callbacks id).isSome
  returns : ∀ e, Can P x e → Allowed P x e → (step P x e).isSome
  delivered : x.conn.connected = true → x.wire = [] → step P x .readCallback = none →
    x.served = x.replies

/-- With all bytes here, the read callback lacks some only between two responses. -/
theorem Inv.left_nil (hx : Inv P x) (hlaw : P.Lawful)
    (hon : x.conn.connected = true) (hwire : x.wire = [])
    (hstep : step P x .readCallback = none) : x.left = [] := by
  have hshort : ∀ s, x.conn.reading = some s → x.conn.buffer.length < P.numBytes s := by
    intro s hreading
    by_contra hready
    obtain ⟨conn', hconn', _⟩ := hx.readCallback hlaw hon hreading (Nat.le_of_not_lt hready)
    rw [step, hconn'] at hstep
    cases hstep
  obtain ⟨s, hreading, ⟨rfl, hbytes⟩ | ⟨r, rest, call, bs, _, _, hrest, hbytes⟩⟩ := hx.reads hon
  · have hlt := hshort _ hreading
    cases hleft : x.left with
    | nil => rfl
    | cons r rest =>
      obtain ⟨call, _, hd, tl, s₁, hsplit, hlen, _, _⟩ :=
        hx.replied r ((List.drop_sublist _ _).subset (by
          show r ∈ x.left
          rw [hleft]
          exact List.mem_cons_self))
      have hall := congrArg List.length hbytes
      rw [hleft, List.map_cons, List.flatten_cons, hsplit, hwire] at hall
      have hpos := hlaw.first_pos
      simp only [List.length_append, List.length_nil] at hall
      omega
  · have hlt := hshort s hreading
    have hall := congrArg List.length hbytes
    have hle : P.numBytes s ≤ bs.length := by
      cases hrest with
      | last hlen _ => exact hlen.le
      | more hlen _ _ =>
        rw [List.length_append, hlen]
        omega
    rw [hwire] at hall
    simp only [List.length_append, List.length_nil] at hall
    omega

/-- What can happen and is allowed does. -/
theorem Inv.returns (hx : Inv P x) (hlaw : P.Lawful) {e : Event ρ ν γ} (hcan : Can P x e)
    (hallowed : Allowed P x e) : (step P x e).isSome := by
  cases e with
  | connect =>
    obtain ⟨greeting, hgreeting⟩ := Option.isSome_iff_exists.mp hallowed.1
    obtain ⟨conn', hconn', _⟩ := hx.connect hcan hgreeting
    rw [step, if_neg (by simp [show x.conn.connected = false from hcan]), hconn']
    rfl
  | fetch r callback =>
    obtain ⟨conn', hconn', _⟩ : ∃ conn', x.conn.fetch P r callback = some conn' ∧ _ :=
      hx.fetch hallowed.1 hallowed.2
    rw [step, hconn']
    rfl
  | reply r =>
    simp only [Can] at hcan
    rw [step, if_pos hcan]
    rfl
  | receive n => rfl
  | readCallback =>
    obtain ⟨s, hreading, hready⟩ := hcan
    obtain ⟨conn', hconn', _⟩ := hx.readCallback hlaw (hx.on hreading) hreading hready
    rw [step, hconn']
    rfl

theorem Inv.sound (hx : Inv P x) (hlaw : P.Lawful) : Sound P x := by
  refine ⟨hx.sent, hx.called, hx.once, hx.callbacks.isSome_iff, hx.prof,
    fun _ => hx.returns hlaw, ?_⟩
  intro hon hwire hstep
  have hsplit : x.served ++ x.left = x.replies := List.take_append_drop _ _
  rwa [hx.left_nil hlaw hon hwire hstep, List.append_nil] at hsplit

theorem Reached.sound (h : Reached P x) (hlaw : P.Lawful) : Sound P x :=
  (inv_of_reached hlaw h).sound hlaw

/-! ## Regular runs, by computation -/

/-- `Regular`, when a test says what a response is. -/
def checkRegular (frame : Int → Reply ν → Bool) (P : Protocol ρ σ ν) (x : Talk ρ σ ν γ) :
    Event ρ ν γ → Bool
  | .connect => P.greeting.isSome
  | .fetch r _ => (P.encode r).isSome
  | .reply r => x.issued[r.ticket]?.all fun call => frame (P.id call.1) r
  | _ => true

def checkFresh (P : Protocol ρ σ ν) (x : Talk ρ σ ν γ) : Event ρ ν γ → Bool
  | .fetch r _ => (x.conn.callbacks (P.id r)).isNone
  | _ => true

/-- Whether the read callback has its bytes. -/
def canRead (P : Protocol ρ σ ν) (x : Talk ρ σ ν γ) : Bool :=
  x.conn.reading.any fun s => decide (P.numBytes s ≤ x.conn.buffer.length)

theorem can_of_canRead (h : canRead P x = true) : Can P x .readCallback := by
  obtain ⟨s, hreading, hready⟩ := (Option.any_eq_true _ _).mp h
  exact ⟨s, hreading, of_decide_eq_true hready⟩

def checkAllowed (frame : Int → Reply ν → Bool) (P : Protocol ρ σ ν) (x : Talk ρ σ ν γ)
    (e : Event ρ ν γ) : Bool :=
  checkRegular frame P x e && checkFresh P x e

section
variable {frame : Int → Reply ν → Bool} {e : Event ρ ν γ}
  (hframe : ∀ id r, frame id r = true → P.Frame id r.value r.bytes)
include hframe

theorem regular_of_check (h : checkRegular frame P x e = true) : Regular P x e := by
  cases e with
  | connect => exact h
  | fetch r callback => exact h
  | reply r =>
    intro call hcall
    rw [checkRegular, hcall, Option.all_some] at h
    exact hframe _ r h
  | _ => trivial

theorem allowed_of_check (h : checkAllowed frame P x e = true) : Allowed P x e := by
  rw [checkAllowed, Bool.and_eq_true] at h
  refine ⟨regular_of_check hframe h.1, ?_⟩
  cases e with
  | fetch r callback => exact Option.isNone_iff_eq_none.mp h.2
  | _ => trivial

end

end Talk

end PyAgent.Python
