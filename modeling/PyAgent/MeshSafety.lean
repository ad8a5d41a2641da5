import PyAgent.MeshRuns

/-!
# Every call is answered by the provider, at most once

Each event of the mesh keeps its invariant, and seen from outside it is a call, some
answers, or nothing.
-/

namespace PyAgent.Mesh
set_option autoImplicit false

open Streaming

variable {ι γ χ : Type} [DecidableEq ι]

/-! ## The mesh as remote calls -/

/-- The answers called back so far. -/
def View.answers (v : View γ χ) : List (Nat × Bytes) :=
  (v.sent.take (v.exchange.delivered (ClientRuns.dialogue γ χ v.key)).length).map fun r =>
    (r.ticket, r.frame.payload)

def remote (m : Mesh ι γ χ) (y : Routing.State ι) :
    Remote ι (ActReuseKey × ClientRuns.Call γ χ) Bytes :=
  ⟨m.calls, fun i => (m.clients i).elim [] fun k => (view m y i k).answers⟩

section
variable {cap : Nat} {v : View γ χ} (hv : v.Inv cap)

theorem View.delivered_eq (v : View γ χ) : v.exchange.delivered (ClientRuns.dialogue γ χ v.key) =
    (v.sent.take (v.exchange.delivered (ClientRuns.dialogue γ χ v.key)).length).map relay := by
  have hprefix : v.exchange.delivered (ClientRuns.dialogue γ χ v.key) <+: v.sent.map relay :=
    Exchange.delivered_prefix _ _
  rw [List.map_take]
  exact List.prefix_iff_eq_take.mp hprefix

theorem View.answers_tickets (v : View γ χ) : v.answers.map Prod.fst =
    (v.exchange.delivered (ClientRuns.dialogue γ χ v.key)).map ClientRuns.Reply.ticket := by
  rw [v.delivered_eq, View.answers, List.map_map, List.map_map]
  rfl

include hv in
/-- Every callback has got what its answer says. -/
theorem View.Inv.handed : List.Forall₂ (fun answer made =>
    ∃ call, (v.issued.map fun call => (v.key, call))[answer.1]? = some call ∧
      made = Mesh.handed call answer.2) v.answers v.link.env.calls := by
  have hcalled := hv.client.holds.called
  rw [v.delivered_eq, List.forall₂_map_left_iff] at hcalled
  have hids : ∀ r ∈ v.sent.take
      (v.exchange.delivered (ClientRuns.dialogue γ χ v.key)).length,
      ∀ call, v.issued[r.ticket]? = some call → r.frame.id = call.id := by
    intro r hr call hcall
    obtain ⟨_, call', hcall', hid⟩ := hv.client.replied (relay r)
      (List.mem_map_of_mem (List.mem_of_mem_take hr))
    obtain rfl : call' = call := Option.some.inj (hcall'.symm.trans hcall)
    exact hid
  rw [View.answers, List.forall₂_map_left_iff]
  refine ((List.forall₂_and_left _ _).mpr ⟨hids, hcalled⟩).imp ?_
  intro r made h
  obtain ⟨hid, call, hcall, rfl⟩ := h
  refine ⟨(v.key, call), by rw [List.getElem?_map, show v.issued[r.ticket]? = some call from hcall]
                            rfl, ?_⟩
  simp only [Mesh.handed, relay, r.frame.relayed_response, DubboFrame.answered, hid call hcall]

end

/-! ## What happens on one connection -/

/-- A change of one connection on the consumer agent's side. -/
def put (m : Mesh ι γ χ) (i : ι) (k : Link PaReader (PaClient γ χ))
    (issued : List (ClientRuns.Call γ χ)) (returned : Nat) : Mesh ι γ χ :=
  { m with
    clients := Function.update m.clients i (some k)
    issued := Function.update m.issued i issued
    returned := Function.update m.returned i returned }

section
variable {serves : Bytes → Bytes → Prop} {cap : Nat} {m m' : Mesh ι γ χ} {y y' : Routing.State ι}
variable {i : ι} {k : Link PaReader (PaClient γ χ)} {issued : List (ClientRuns.Call γ χ)}
variable {returned : Nat}

theorem setClient_eq_put (m : Mesh ι γ χ) (i : ι) (k : Link PaReader (PaClient γ χ)) :
    m.setClient i k = m.put i k (m.issued i) (m.returned i) := by
  simp [setClient, put]

theorem view_put_self (m : Mesh ι γ χ) (y : Routing.State ι) (i : ι)
    (k : Link PaReader (PaClient γ χ)) (issued : List (ClientRuns.Call γ χ)) (returned : Nat) :
    view (m.put i k issued returned) y i k =
      { view m y i k with issued := issued, returned := returned } := by
  simp [view, put, incoming]

theorem view_put_of_ne {i' : ι} (h : i' ≠ i) (k' : Link PaReader (PaClient γ χ)) :
    view (m.put i k issued returned) y i' k' = view m y i' k' := by
  simp [view, put, incoming, Function.update_of_ne h]

theorem openAt_put_of_ne {i' : ι} (h : i' ≠ i) {j : Nat} {call : ClientRuns.Call γ χ} :
    OpenAt (m.put i k issued returned) y i' j call ↔ OpenAt m y i' j call := by
  simp only [OpenAt, view_put_of_ne h]
  simp [put, Function.update_of_ne h]

theorem openAt_put_self {j : Nat} {call : ClientRuns.Call γ χ} :
    OpenAt (m.put i k issued returned) y i j call ↔
      View.Open { view m y i k with issued := issued, returned := returned } j call := by
  rw [← view_put_self]
  simp [OpenAt, put]

theorem Distinct.of_sub (hd : Distinct m y)
    (hsub : ∀ i j call, OpenAt m' y' i j call → OpenAt m y i j call) : Distinct m' y' :=
  fun i j call i' j' call' h h' => hd i j call i' j' call' (hsub i j call h) (hsub i' j' call' h')

theorem Inv.put (hm : Inv serves cap m y)
    (hv : View.Inv cap { view m y i k with issued := issued, returned := returned })
    (hdistinct : Distinct (m.put i k issued returned) y) :
    Inv serves cap (m.put i k issued returned) y := by
  refine ⟨hm.link, hm.received, hm.wire, hm.heard_le, hm.dubbo, hm.sent, hm.sized, hm.answered,
    hm.served, hm.pool, ?_, ?_, hdistinct⟩
  · intro i' k' hk'
    by_cases hi : i' = i
    · subst hi
      obtain rfl : k = k' := by simpa [Mesh.put] using hk'
      rw [view_put_self]
      exact hv
    · rw [view_put_of_ne hi]
      exact hm.clients i' k' (by simpa [Mesh.put, Function.update_of_ne hi] using hk')
  · intro i' hk'
    have hi : i' ≠ i := by
      rintro rfl
      simp [Mesh.put] at hk'
    have habsent := hm.absent i' (by simpa [Mesh.put, Function.update_of_ne hi] using hk')
    simpa [Mesh.put, Function.update_of_ne hi] using habsent

/-- What it takes for the answers on other connections to stay. -/
theorem remote_put (m : Mesh ι γ χ) (y : Routing.State ι) (i : ι)
    (k : Link PaReader (PaClient γ χ)) (issued : List (ClientRuns.Call γ χ)) (returned : Nat) :
    remote (m.put i k issued returned) y =
      ⟨Function.update m.calls i (issued.map fun call => (k.env.key, call)),
        Function.update (remote m y).answers i
          (View.answers { view m y i k with issued := issued, returned := returned })⟩ := by
  refine congrArg₂ Remote.mk ?_ ?_
  · funext i'
    by_cases hi : i' = i
    · subst hi
      simp [calls, put]
    · simp [calls, put, Function.update_of_ne hi]
  · funext i'
    by_cases hi : i' = i
    · subst hi
      rw [Function.update_self, ← view_put_self]
      simp [put]
    · rw [Function.update_of_ne hi]
      simp only [remote, view_put_of_ne hi]
      simp [put, Function.update_of_ne hi]

/-- The invariant carries on, and what is seen from outside is a run of remote calls. -/
def Follows (serves : Bytes → Bytes → Prop) (cap : Nat) (m : Mesh ι γ χ) (y : Routing.State ι)
    (m' : Mesh ι γ χ) : Prop :=
  ∃ y', Inv serves cap m' y' ∧ (Remote.Reached (Serves serves) (remote m y) →
    Remote.Reached (Serves serves) (remote m' y'))

theorem Follows.of_remote_eq (hm : Inv serves cap m' y') (h : remote m' y' = remote m y) :
    Follows serves cap m y m' :=
  ⟨y', hm, fun hr => by rw [h]; exact hr⟩

theorem Inv.sentAt_of_absent (hm : Inv serves cap m y) (hi : m.clients i = none) :
    sentAt y i = [] := by
  obtain ⟨_, hfetched, _⟩ := hm.absent i hi
  rw [sentAt, List.map_eq_nil_iff]
  apply List.eq_nil_iff_forall_not_mem.mpr
  intro r hr
  have hlt := ticketAt_lt (mem_ownedBy.mp hr).2
  rw [hfetched] at hlt
  exact absurd hlt (Nat.not_lt_zero _)

/-- A change that nobody outside can see. -/
theorem Inv.put_follows (hm : Inv serves cap m y)
    (hv : View.Inv cap { view m y i k with issued := issued, returned := returned })
    (hopen : ∀ j call, View.Open { view m y i k with issued := issued, returned := returned } j
      call → OpenAt m y i j call)
    (hcalls : (issued.map fun call => (k.env.key, call)) = m.calls i)
    (hanswers : View.answers { view m y i k with issued := issued, returned := returned } =
      (remote m y).answers i) :
    Follows serves cap m y (m.put i k issued returned) := by
  apply Follows.of_remote_eq (hm.put hv ?_)
  · rw [remote_put, hcalls, hanswers, Function.update_eq_self, Function.update_eq_self]
    rfl
  · apply hm.distinct.of_sub
    intro i' j call hcall
    by_cases hi : i' = i
    · subst hi
      exact hopen j call (openAt_put_self.mp hcall)
    · exact (openAt_put_of_ne hi).mp hcall

theorem Inv.create (hm : Inv serves cap m y) (hi : m.clients i = none) {key : ActReuseKey}
    (hkey : key.Wf) :
    Follows serves cap m y
      (m.setClient i (paLink ⟨[], []⟩ ⟨0, 0, []⟩ (PaClient.create key))) := by
  obtain ⟨hissued, hfetched, harrived, hreturned, hconn⟩ := hm.absent i hi
  have hsent := hm.sentAt_of_absent hi
  have hincoming : m.incoming i = [] := by
    rw [hm.incoming_eq, hsent]
    rfl
  let k : Link PaReader (PaClient γ χ) := paLink ⟨[], []⟩ ⟨0, 0, []⟩ (PaClient.create key)
  have hview : view m y i k = ⟨k, [], [], 0, [], [], 0, .unborn, []⟩ := by
    simp only [view, hissued, hincoming, hreturned, hsent, hfetched, harrived, hconn]
    rfl
  have hv : (view m y i k).Inv cap := by
    rw [hview]
    exact ⟨ClientRuns.inv_start key cap, hkey, by simp, rfl, Nat.le_refl _, Nat.zero_le _,
      fun _ => rfl, by simp, by simp⟩
  rw [setClient_eq_put]
  apply hm.put_follows hv
  · intro j call hopen
    obtain ⟨hget, _⟩ := hopen
    have hnone : (m.issued i)[j]? = some call := hget
    rw [hissued] at hnone
    cases hnone
  · simp [calls, hi, hissued]
  · simp [remote, hi, View.answers, view, hsent]

/-- The connection comes up, or its key has been written. -/
theorem Inv.setEnv (hm : Inv serves cap m y) (hk : m.clients i = some k) {client : PaClient γ χ}
    (hkey : client.key = k.env.key) (hsocket : k.env.socket <+: client.socket)
    (hholds : ClientRuns.Holds k.env.key
      ((view m y i k).exchange.ledger (ClientRuns.dialogue γ χ k.env.key))
      ((view m y i k).exchange.delivered (ClientRuns.dialogue γ χ k.env.key)) client) :
    Follows serves cap m y (m.setClient i { k with env := client }) := by
  have hv : View.Inv cap { view m y i { k with env := client } with
      issued := m.issued i, returned := m.returned i } :=
    (hm.clients i k hk).setEnv hkey hsocket hholds
  rw [setClient_eq_put]
  apply hm.put_follows hv
  · intro j call hopen
    exact ⟨k, hk, hopen⟩
  · simp [calls, hk, hkey]
  · simp only [remote, hk]
    rfl

theorem Inv.paConn (hm : Inv serves cap m y) (hk : m.clients i = some k)
    (hempty : k.env.socket = []) (status : Int) :
    Follows serves cap m y (m.setClient i { k with env := k.env.onConn status }) := by
  apply hm.setEnv hk
  · unfold PaClient.onConn
    split <;> simp
  · rw [hempty]
    exact List.nil_prefix
  · exact (hm.clients i k hk).client.holds.onConn hempty status

theorem Inv.paKeyWritten (hm : Inv serves cap m y) (hk : m.clients i = some k)
    (hsocket : k.env.socket ≠ []) (status : Int) :
    Follows serves cap m y (m.setClient i { k with env := k.env.keyWriteCb status }) := by
  apply hm.setEnv hk
  · unfold PaClient.keyWriteCb
    split <;> simp
  · unfold PaClient.keyWriteCb
    split
    · exact List.prefix_refl _
    · exact PaClient.socket_handleQueue { k.env with connected := true }
  · exact (hm.clients i k hk).client.holds.keyWriteCb hsocket status

theorem Inv.fetch (hm : Inv serves cap m y) (hk : m.clients i = some k)
    {call : ClientRuns.Call γ χ} (hallowed : Allowed serves m (.fetch i call)) :
    Follows serves cap m y { m.setClient i
        { k with env := k.env.fetch call.request call.cb call.context } with
      issued := Function.update m.issued i (m.issued i ++ [call]) } := by
  obtain ⟨⟨hwf, h0, h1, htotal⟩, hfresh⟩ := hallowed
  let k' : Link PaReader (PaClient γ χ) :=
    { k with env := k.env.fetch call.request call.cb call.context }
  have hkey : k'.env.key = k.env.key := PaClient.handleQueue_key _
  have hv : View.Inv cap { view m y i k' with
      issued := m.issued i ++ [call], returned := m.returned i } :=
    (hm.clients i k hk).fetch hwf ⟨h0, h1⟩ (htotal k hk) (hfresh i k hk)
  have hput : { m.setClient i k' with
      issued := Function.update m.issued i (m.issued i ++ [call]) } =
      m.put i k' (m.issued i ++ [call]) (m.returned i) := by
    simp [setClient, Mesh.put]
  -- the calls that wait are those that waited, and this one
  have hopen : ∀ i' j call', OpenAt (m.put i k' (m.issued i ++ [call]) (m.returned i)) y i' j
      call' → OpenAt m y i' j call' ∨ i' = i ∧ j = (m.issued i).length ∧ call' = call := by
    intro i' j call' hcall'
    by_cases hi : i' = i
    · subst hi
      obtain ⟨hget, hwaits⟩ := openAt_put_self.mp hcall'
      have hget' : (m.issued i' ++ [call])[j]? = some call' := hget
      rcases Nat.lt_or_ge j (m.issued i').length with hlt | hge
      · rw [List.getElem?_append_left hlt] at hget'
        exact Or.inl ⟨k, hk, hget', hwaits⟩
      · obtain ⟨hlt, _⟩ := List.getElem?_eq_some_iff.mp hget'
        rw [List.length_append, List.length_singleton] at hlt
        obtain rfl : j = (m.issued i').length := by omega
        exact Or.inr ⟨rfl, rfl, by simpa using hget'.symm⟩
    · exact Or.inl ((openAt_put_of_ne hi).mp hcall')
  have hnew : ∀ i' j call', OpenAt m y i' j call' → call'.id ≠ call.id := by
    intro i' j call' hcall' heq
    obtain ⟨k₁, hk₁, hopen₁⟩ := hcall'
    have hsome := (hm.clients i' k₁ hk₁).client.holds.callbacks.get hopen₁
    have hnone := hfresh i' k₁ hk₁
    rw [heq] at hsome
    cases hnone.symm.trans hsome
  rw [hput]
  refine ⟨y, hm.put hv ?_, ?_⟩
  · intro i₁ j₁ call₁ i₂ j₂ call₂ h₁ h₂ hid
    rcases hopen i₁ j₁ call₁ h₁ with hold₁ | ⟨rfl, rfl, rfl⟩ <;>
      rcases hopen i₂ j₂ call₂ h₂ with hold₂ | ⟨rfl, rfl, rfl⟩
    · exact hm.distinct i₁ j₁ call₁ i₂ j₂ call₂ hold₁ hold₂ hid
    · exact absurd hid (hnew i₁ j₁ call₁ hold₁)
    · exact absurd hid.symm (hnew i₂ j₂ call₂ hold₂)
    · exact ⟨rfl, rfl⟩
  · have hcalled : remote (m.put i k' (m.issued i ++ [call]) (m.returned i)) y =
        (remote m y).call i (k.env.key, call) := by
      have hanswers : View.answers { view m y i k' with
          issued := m.issued i ++ [call], returned := m.returned i } = (remote m y).answers i := by
        simp only [remote, hk]
        rfl
      rw [remote_put, hanswers, Function.update_eq_self, hkey]
      simp [Remote.call, remote, calls, hk]
    intro hr
    rw [hcalled]
    exact hr.tail (.call _ i _)

/-- What is sent to a connection answers one of its calls. -/
theorem Inv.serves_of_sent (hm : Inv serves cap m y) (hk : m.clients i = some k)
    {r : Routing.Reply} (hr : r ∈ sentAt y i) :
    ∃ call, (m.issued i)[r.ticket]? = some call ∧
      Serves serves (k.env.key, call) r.frame.payload := by
  obtain ⟨r₀, hr₀, rfl⟩ := List.mem_map.mp hr
  obtain ⟨hdelivered, hcontext⟩ := mem_ownedBy.mp hr₀
  obtain ⟨call, hcall, hcontext⟩ := contextOf_eq_some.mp hcontext
  obtain ⟨c, hc, hrequest⟩ := hm.exists_call hk hcall hcontext
  have hserved := hm.served r₀ ((Exchange.delivered_prefix _ y).subset hdelivered) call hcall
  rw [hrequest] at hserved
  exact ⟨c, hc, hserved⟩

theorem Inv.paRead {S : Nat} (hS : 3 ≤ S) (hcap : toUInt32 S < 2147483648)
    (hm : Inv serves (toUInt32 S) m y) (hk : m.clients i = some k) {tie n : Nat}
    {k' : Link PaReader (PaClient γ χ)}
    (h : k.complete (paClientReadCbs γ χ) S tie (((m.incoming i).drop (m.returned i)).take n) =
      some k') :
    Follows serves (toUInt32 S) m y { m.setClient i k' with
      returned := Function.update m.returned i
        (m.returned i + (((m.incoming i).drop (m.returned i)).take n).length) } := by
  let returned' := m.returned i + (((m.incoming i).drop (m.returned i)).take n).length
  let v := view m y i k
  let v' : View γ χ := { v with link := k', returned := returned' }
  have hv : View.Inv (toUInt32 S) v' := (hm.clients i k hk).read hS hcap h
  have hkey : k'.env.key = k.env.key := (PaClient.complete_keeps h).1
  -- what has been delivered stays so
  have hmore : v.exchange.delivered (ClientRuns.dialogue γ χ v.key) <+:
      v'.exchange.delivered (ClientRuns.dialogue γ χ v'.key) := by
    apply Decoder.complete_mono
    exact (List.take_prefix_take_left (Nat.le_add_right (m.returned i) _)).length_le
  have hput : { m.setClient i k' with
      returned := Function.update m.returned i returned' } =
      m.put i k' (m.issued i) returned' := by
    simp [setClient, Mesh.put]
  have hm' : Inv serves (toUInt32 S) (m.put i k' (m.issued i) returned') y := by
    apply hm.put hv
    apply hm.distinct.of_sub
    intro i' j call hcall
    by_cases hi : i' = i
    · subst hi
      obtain ⟨hget, hwaits⟩ := openAt_put_self.mp hcall
      refine ⟨k, hk, hget, ?_⟩
      intro hmem
      exact hwaits ((hmore.sublist.map _).subset hmem)
    · exact (openAt_put_of_ne hi).mp hcall
  rw [hput]
  refine ⟨y, hm', ?_⟩
  have hsent : v'.sent = v.sent := rfl
  have hanswers : v'.answers = v.answers ++ v'.answers.drop v.answers.length := by
    symm
    apply List.prefix_iff_eq_append.mp
    rw [View.answers, View.answers, hsent]
    exact (List.take_prefix_take_left hmore.length_le).map _
  have hremote : remote (m.put i k' (m.issued i) returned') y =
      (remote m y).answerAll i (v'.answers.drop v.answers.length) := by
    have hold : (remote m y).answers i = v.answers := by simp [remote, hk, v]
    have hcalls : ((m.issued i).map fun call => (k'.env.key, call)) = m.calls i := by
      simp [calls, hk, hkey]
    rw [remote_put, hcalls, Function.update_eq_self]
    refine congrArg₂ Remote.mk rfl ?_
    rw [hold, ← hanswers]
    rfl
  intro hr
  rw [hremote]
  have hold : (remote m y).answers i = v.answers := by simp [remote, hk, v]
  apply hr.answerAll
  · rw [hold, ← hanswers, View.answers_tickets]
    exact hv.client.once.sublist ((Exchange.delivered_prefix _ _).sublist.map _)
  · intro j payload hmem
    have hmem' : (j, payload) ∈ v'.answers := List.mem_of_mem_drop hmem
    obtain ⟨r, hr, heq⟩ := List.mem_map.mp hmem'
    obtain ⟨rfl, rfl⟩ := Prod.mk.inj heq
    obtain ⟨call, hcall, hserves⟩ := hm.serves_of_sent hk (List.mem_of_mem_take hr)
    refine ⟨(k.env.key, call), ?_, hserves⟩
    simp [remote, calls, hk, hcall]

end

/-! ## What the provider agent reads -/

section
variable {serves : Bytes → Bytes → Prop} {cap : Nat} {m : Mesh ι γ χ} {y : Routing.State ι}
variable {i : ι} {k : Link PaReader (PaClient γ χ)}

/-- More requests, and whatever the Dubbo client makes of them. -/
def grow (y : Routing.State ι) (client : DubboClient ι) (calls : List (Routing.Call ι)) :
    Routing.State ι :=
  { y with link := { y.link with env := client }, issued := y.issued ++ calls }

namespace Inv
variable (hm : Inv serves cap m y)
include hm

theorem ticket_lt {r : Routing.Reply} (hr : r ∈ y.replies) : r.ticket < y.issued.length := by
  obtain ⟨_, call, hcall, _⟩ := hm.dubbo.replied r hr
  exact (List.getElem?_eq_some_iff.mp hcall).1

theorem sentAt_grow (client : DubboClient ι) (calls : List (Routing.Call ι)) (i : ι) :
    sentAt (grow y client calls) i = sentAt y i := by
  have hdelivered : (grow y client calls).delivered (Routing.dialogue ι) =
      y.delivered (Routing.dialogue ι) := rfl
  have hlt : ∀ r ∈ y.delivered (Routing.dialogue ι), r.ticket < y.issued.length :=
    fun r hr => hm.ticket_lt ((Exchange.delivered_prefix _ y).subset hr)
  have hcontext : ∀ r ∈ y.delivered (Routing.dialogue ι),
      contextOf (grow y client calls) r = contextOf y r := by
    intro r hr
    rw [contextOf, contextOf, grow, List.getElem?_append_left (hlt r hr)]
  have hat : deliveredAt (grow y client calls) i = deliveredAt y i := by
    rw [deliveredAt, deliveredAt, hdelivered]
    apply List.filter_congr
    intro r hr
    rw [hcontext r hr]
  rw [sentAt, sentAt, hat]
  apply List.map_congr_left
  intro r hr
  rw [ticketAt, ticketAt, grow, rank_append (Nat.le_of_lt (hlt r (mem_ownedBy.mp hr).1))]

omit hm in
theorem fetched_grow (client : DubboClient ι) (calls : List (Routing.Call ι)) (i : ι) :
    fetched (grow y client calls) i =
      fetched y i ++ (ownedBy Routing.Call.context i calls).map Routing.Call.request := by
  rw [fetched, fetched, grow, ownedBy_append, List.map_append]

omit hm in
theorem fetched_grow_self (client : DubboClient ι) (rs : List DubboRequest) (i : ι) :
    fetched (grow y client (rs.map fun r => ⟨i, r⟩)) i = fetched y i ++ rs := by
  rw [fetched_grow, ownedBy_eq_self (by simp), List.map_map]
  simp [Function.comp_def]

omit hm in
theorem fetched_grow_of_ne (client : DubboClient ι) (rs : List DubboRequest) {i' : ι}
    (h : i' ≠ i) : fetched (grow y client (rs.map fun r => ⟨i, r⟩)) i' = fetched y i' := by
  rw [fetched_grow, ownedBy_eq_nil (by simpa using fun _ _ => Ne.symm h)]
  simp

omit hm in
/-- A request that has just arrived is a call that waits. -/
theorem exists_arrived (hk : m.clients i = some k) {rs : List DubboRequest} {n : Nat}
    (hrs : fetched y i ++ rs = (Decoder.complete paActRequestEncode (view m y i k).requests
      (n - (paEncodeActKey k.env.key).length)).map (·.under k.env.key))
    {a : Nat} {r : DubboRequest} (ha : rs[a]? = some r) :
    ∃ c, OpenAt m y i ((fetched y i).length + a) c ∧ r = c.request.under k.env.key ∧
      c ∈ m.issued i := by
  have hget : (fetched y i ++ rs)[(fetched y i).length + a]? = some r := by
    rw [List.getElem?_append_right (Nat.le_add_right _ _), Nat.add_sub_cancel_left]
    exact ha
  rw [hrs, List.getElem?_map] at hget
  obtain ⟨request, hrequest, rfl⟩ := Option.map_eq_some_iff.mp hget
  obtain ⟨rest, hrest⟩ := Decoder.complete_isPrefix paActRequestEncode (view m y i k).requests
    (n - (paEncodeActKey k.env.key).length)
  have hlt := (List.getElem?_eq_some_iff.mp hrequest).1
  have hissued : ((m.issued i).map ClientRuns.Call.request)[(fetched y i).length + a]? =
      some request := by
    rw [show (m.issued i).map ClientRuns.Call.request = _ from hrest.symm,
      List.getElem?_append_left hlt]
    exact hrequest
  rw [List.getElem?_map] at hissued
  obtain ⟨c, hc, rfl⟩ := Option.map_eq_some_iff.mp hissued
  exact ⟨c, ⟨k, hk, open_of_unfetched hc (Nat.le_add_right _ _)⟩, rfl, List.mem_of_getElem? hc⟩

/-- The Dubbo client can tell the new requests from each other and from those it waits for. -/
theorem holds_fetchAll (hk : m.clients i = some k) {rs : List DubboRequest} {n : Nat}
    (hrs : fetched y i ++ rs = (Decoder.complete paActRequestEncode (view m y i k).requests
      (n - (paEncodeActKey k.env.key).length)).map (·.under k.env.key)) :
    (Routing.dialogue ι).holds
      ⟨y.issued ++ rs.map fun r => ⟨i, r⟩, (y.delivered (Routing.dialogue ι)).map
        Routing.Reply.ticket⟩ (y.delivered (Routing.dialogue ι))
      (m.agent.dubbo.env.fetchAll (rs.map fun r => ⟨i, r⟩)) := by
  have hholds := hm.dubbo.holds
  rw [hm.link] at hholds
  refine Routing.Holds.fetchAll hholds ?_ ?_ ?_
  · intro call hcall
    obtain ⟨r, hr, rfl⟩ := List.mem_map.mp hcall
    obtain ⟨a, ha⟩ := List.mem_iff_getElem?.mp hr
    obtain ⟨c, _, rfl, hc⟩ := exists_arrived hk hrs ha
    exact ((hm.clients i k hk).requests c hc).2.1
  · rw [List.map_map]
    apply List.pairwise_map.mpr
    apply List.pairwise_iff_getElem.mpr
    intro a b ha hb hlt heq
    obtain ⟨c, hopen, hc, _⟩ := exists_arrived hk hrs (List.getElem?_eq_getElem ha)
    obtain ⟨c', hopen', hc', _⟩ := exists_arrived hk hrs (List.getElem?_eq_getElem hb)
    have hid : c.id = c'.id := by
      have h : rs[a].id = rs[b].id := heq
      rw [hc, hc'] at h
      exact h
    have := (hm.distinct _ _ _ _ _ _ hopen hopen' hid).2
    omega
  · intro call hcall t call' hopen heq
    obtain ⟨r, hr, rfl⟩ := List.mem_map.mp hcall
    obtain ⟨a, ha⟩ := List.mem_iff_getElem?.mp hr
    obtain ⟨c, hc, rfl, _⟩ := exists_arrived hk hrs ha
    obtain ⟨c', hid, hc'⟩ := hm.open_of_waiting hopen
    have hsame : c'.id = c.id := hid.trans heq
    obtain ⟨hcontext, hrank⟩ := hm.distinct _ _ _ _ _ _ hc' hc hsame
    have ht : y.issued[t]? = some call' := hopen.1
    have hlt := rank_lt_length ht hcontext
    rw [hcontext, fetched, List.length_map] at hrank
    omega

/-- Bytes of connection `i` arrive at the provider agent and complete the requests `rs`. -/
theorem serve (hk : m.clients i = some k) {rs : List DubboRequest} {n : Nat}
    (hn : n ≤ k.env.socket.length)
    (hrs : fetched y i ++ rs = (Decoder.complete paActRequestEncode (view m y i k).requests
      (n - (paEncodeActKey k.env.key).length)).map (·.under k.env.key))
    {store : BufStore} {held : Option Nat} {ctx : StreamContext}
    (hlive : ∃ block, actWire.ok ctx ∧ actWire.decoder.Settles (createPaContext block)
      (k.env.socket.take n) (fetched y i ++ rs) ctx (unreadOf store held))
    (hpool : Pooled cap store
      (Function.update (fun j => heldOf (m.agent.conns j)) i held))
    (hothers : ∀ j, j ≠ i → unreadOf store (heldOf (m.agent.conns j)) =
      unreadOf m.agent.store (heldOf (m.agent.conns j)))
    (calls : List (HandleCall ι)) :
    Follows serves cap m y { m with
      agent := ⟨store, Function.update m.agent.conns i (.live held ctx),
        { m.agent.dubbo with env := m.agent.dubbo.env.fetchAll (rs.map fun r => ⟨i, r⟩) }, calls⟩
      arrived := Function.update m.arrived i n } := by
  let client := m.agent.dubbo.env.fetchAll (rs.map fun r => ⟨i, r⟩)
  let y' := grow y client (rs.map fun r => ⟨i, r⟩)
  let m' : Mesh ι γ χ := { m with
    agent := ⟨store, Function.update m.agent.conns i (.live held ctx),
      { m.agent.dubbo with env := client }, calls⟩
    arrived := Function.update m.arrived i n }
  have hincoming : m'.incoming = m.incoming := by
    funext j
    simp [incoming, m', client]
  have hself : view m' y' i k = { view m y i k with
      fetched := fetched y i ++ rs
      arrived := n
      conn := .live held ctx
      unread := unreadOf store held } := by
    simp only [view, hincoming, y', hm.sentAt_grow, fetched_grow_self]
    simp [m', heldOf]
  have hother : ∀ j k', j ≠ i → view m' y' j k' = view m y j k' := by
    intro j k' hj
    have hunread := hothers j hj
    simp only [view, hincoming, y', hm.sentAt_grow, fetched_grow_of_ne client rs hj]
    simp [m', Function.update_of_ne hj, hunread]
  have hopen : ∀ j t call, OpenAt m' y' j t call → OpenAt m y j t call := by
    intro j t call hcall
    obtain ⟨k', hk', hcall⟩ := hcall
    refine ⟨k', hk', ?_⟩
    by_cases hj : j = i
    · subst hj
      obtain rfl : k = k' := Option.some.inj (hk.symm.trans hk')
      rw [hself] at hcall
      exact hcall
    · rw [hother j k' hj] at hcall
      exact hcall
  have hm' : Inv serves cap m' y' := by
    refine ⟨?_, hm.received, hm.wire, hm.heard_le, hm.dubbo.update (hm.holds_fetchAll hk hrs), ?_,
      ?_, hm.answered, ?_, ?_, ?_, ?_, hm.distinct.of_sub hopen⟩
    · simp only [y', grow, hm.link]
      rfl
    · have hsent := hm.sent.fetchAll (rs.map fun r => ⟨i, r⟩)
      rw [← List.map_append] at hsent
      exact hsent
    · intro call hcall
      rcases List.mem_append.mp hcall with hcall | hcall
      · exact hm.sized call hcall
      · obtain ⟨r, hr, rfl⟩ := List.mem_map.mp hcall
        obtain ⟨a, ha⟩ := List.mem_iff_getElem?.mp hr
        obtain ⟨c, _, rfl, hc⟩ := exists_arrived hk hrs ha
        have hv := hm.clients i k hk
        obtain ⟨hwf, _, htotal⟩ := hv.requests c hc
        exact ⟨ActRequest.under_sized hv.key.sized hwf.sized, htotal⟩
    · intro r hr call hcall
      apply hm.served r hr
      rw [← hcall]
      exact (List.getElem?_append_left (hm.ticket_lt hr)).symm
    · have hheld : (fun j => heldOf (m'.agent.conns j)) =
          Function.update (fun j => heldOf (m.agent.conns j)) i held := by
        funext j
        by_cases hj : j = i
        · subst hj
          simp [m', heldOf]
        · simp [m', Function.update_of_ne hj]
      rw [hheld]
      exact hpool
    · intro j k' hk'
      by_cases hj : j = i
      · subst hj
        obtain rfl : k = k' := Option.some.inj (hk.symm.trans hk')
        have hv := hm.clients j k hk
        rw [hself]
        refine ⟨hv.client, hv.key, hv.requests, hrs, hv.returned_le, hn, by simp, by simp, ?_⟩
        intro held' ctx' hconn
        obtain ⟨rfl, rfl⟩ := Closing.Conn.live.inj hconn
        exact hlive
      · rw [hother j k' hj]
        exact hm.clients j k' hk'
    · intro j hj
      have hne : j ≠ i := by
        rintro rfl
        rw [show m.clients j = none from hj] at hk
        cases hk
      have habsent := hm.absent j hj
      simpa [m', y', fetched_grow_of_ne client rs hne, Function.update_of_ne hne] using habsent
  apply Follows.of_remote_eq hm'
  refine congrArg₂ Remote.mk rfl ?_
  funext j
  show ((m.clients j).elim [] fun k' => (view m' y' j k').answers) =
    (m.clients j).elim [] fun k' => (view m y j k').answers
  cases hk' : m.clients j with
  | none => rfl
  | some k' =>
    by_cases hj : j = i
    · subst hj
      obtain rfl : k = k' := Option.some.inj (hk.symm.trans hk')
      show (view m' y' j k).answers = (view m y j k).answers
      rw [hself]
      rfl
    · exact congrArg View.answers (hother j k' hj)

theorem exists_client {held : Option Nat} {ctx : StreamContext}
    (hconn : m.agent.conns i = .live held ctx) : ∃ k, m.clients i = some k := by
  cases hk : m.clients i with
  | some k => exact ⟨k, rfl⟩
  | none =>
    have hunborn := (hm.absent i hk).2.2.2.2
    rw [hconn] at hunborn
    cases hunborn

theorem accept (hk : m.clients i = some k) (hconn : m.agent.conns i = .unborn)
    (block : StreamContext) :
    Follows serves cap m y { m with agent := { m.agent with
      conns := Function.update m.agent.conns i (.live none (createPaContext block)) } } := by
  have hv := hm.clients i k hk
  have harrived : m.arrived i = 0 := hv.unborn hconn
  have hfetched : fetched y i ++ [] = (Decoder.complete paActRequestEncode
      (view m y i k).requests (0 - (paEncodeActKey k.env.key).length)).map
        (·.under k.env.key) := by
    have hwhole : fetched y i = (view m y i k).whole.map (·.under k.env.key) := hv.fetched
    rw [List.append_nil, hwhole, View.whole, show (view m y i k).arrived = 0 from harrived]
    rfl
  have hnone : fetched y i ++ [] = [] := by
    rw [hfetched, Nat.zero_sub, Decoder.complete_zero _ paActRequestEncode_pos]
    rfl
  have hserve : Follows serves cap m y { m with
      agent := ⟨m.agent.store, Function.update m.agent.conns i (.live none (createPaContext block)),
        { m.agent.dubbo with env := m.agent.dubbo.env.fetchAll ([].map fun r => ⟨i, r⟩) },
        m.agent.calls⟩
      arrived := Function.update m.arrived i 0 } := by
    refine hm.serve hk (Nat.zero_le _) hfetched ⟨block, ?_, ?_⟩ ?_ (fun _ _ => rfl) _
    · exact ⟨headerMagic.retag .inl, mem_actFields_header (by simp [headerFields]), rfl⟩
    · rw [hnone]
      exact ⟨.refl _ _, accepted_waits m.agent.store block ()⟩
    · have hheld : (fun j => heldOf (m.agent.conns j)) i = none := by
        simp only [hconn]
        rfl
      rw [← hheld, Function.update_eq_self]
      exact hm.pool
  have harrived' : Function.update m.arrived i 0 = m.arrived := by
    rw [← harrived, Function.update_eq_self]
  rw [harrived'] at hserve
  exact hserve

omit hm in
/-- The provider agent reads what there is room for: some requests are complete now, and each is
handed to the Dubbo client. -/
theorem act_complete {S : Nat} (hS : 3 ≤ S) (hcap : toUInt32 S < 2147483648)
    (hm : Inv serves (toUInt32 S) m y) (hk : m.clients i = some k) {held : Option Nat}
    {ctx : StreamContext} (hconn : m.agent.conns i = .live held ctx) {tie n : Nat}
    (hroom : ∀ r, (m.agent.link held ctx).room (Closing.Provider.readCbs i) S tie = some r →
      ((k.env.socket.drop (m.arrived i)).take n).length ≤ r) :
    ∃ l rs, (m.agent.link held ctx).complete (Closing.Provider.readCbs i) S tie
        ((k.env.socket.drop (m.arrived i)).take n) = some l ∧
      l.Good actWire (toUInt32 S) ∧
      l.env.dubboClient = m.agent.dubbo.env.fetchAll (rs.map fun r => ⟨i, r⟩) ∧
      fetched y i ++ rs = (Decoder.complete paActRequestEncode (view m y i k).requests
        (m.arrived i + ((k.env.socket.drop (m.arrived i)).take n).length -
          (paEncodeActKey k.env.key).length)).map (·.under k.env.key) ∧
      ∃ block, actWire.decoder.Settles (createPaContext block)
        (k.env.socket.take (m.arrived i + ((k.env.socket.drop (m.arrived i)).take n).length))
        (fetched y i ++ rs) l.ctx l.unread := by
  let chunk := (k.env.socket.drop (m.arrived i)).take n
  have hv := hm.clients i k hk
  have hle : m.arrived i + chunk.length ≤ k.env.socket.length := by
    have harrived : m.arrived i ≤ k.env.socket.length := hv.arrived_le
    simp only [chunk, List.length_take, List.length_drop]
    omega
  obtain ⟨block, hok, hsettles⟩ : ∃ block, actWire.ok ctx ∧
      actWire.decoder.Settles (createPaContext block) (k.env.socket.take (m.arrived i))
        (fetched y i) ctx (unreadOf m.agent.store held) := by
    have hlive := hv.live held ctx hconn
    simpa only [view, hconn, heldOf] using hlive
  obtain ⟨s', us', hs'⟩ := hv.settle block hle
  have htake : k.env.socket.take (m.arrived i + chunk.length) =
      k.env.socket.take (m.arrived i) ++ chunk := take_advance _ _ _
  rw [show (view m y i k).link.env.socket = k.env.socket from rfl, htake] at hs'
  obtain ⟨rs, hrs, hafter⟩ := hs'.after (hsettles.1.append chunk)
  let l₀ := m.agent.link held ctx
  have hgood : l₀.Good actWire (toUInt32 S) := by
    refine ⟨hm.pool.wf, ?_, hok⟩
    intro p hp
    exact hm.pool.holds i p (by simp only [hconn]; exact hp)
  have hfold := foldlM_dubboFetch i rs l₀.env
  obtain ⟨l, hl, hgood', rfl, rfl, henv⟩ := Link.complete_spec
    (C := Closing.Provider.readCbs i) paReadCbs_implements hS hgood tie chunk
    (fun r hr => by
      have hfit : chunk.length ≤ r := hroom r hr
      exact ⟨hfit, by omega⟩) hsettles.2 hafter hfold
  refine ⟨l, rs, hl, hgood', ?_, hrs.symm, block, ?_⟩
  · rw [henv]
    rfl
  · rw [hrs] at hs'
    rw [htake]
    exact hs'

omit hm in
theorem actRead {S : Nat} (hS : 3 ≤ S) (hcap : toUInt32 S < 2147483648)
    (hm : Inv serves (toUInt32 S) m y) {tie n : Nat} {agent : Closing.Provider ι}
    (h : m.agent.step S (.read i tie (((m.outgoing i).drop (m.arrived i)).take n)) = some agent) :
    Follows serves (toUInt32 S) m y { m with
      agent := agent
      arrived := Function.update m.arrived i
        (m.arrived i + (((m.outgoing i).drop (m.arrived i)).take n).length) } := by
  cases hconn : m.agent.conns i with
  | unborn => simp [Closing.Provider.step, hconn] at h
  | closed => simp [Closing.Provider.step, hconn] at h
  | live held ctx =>
    obtain ⟨k, hk⟩ := hm.exists_client hconn
    have hout : m.outgoing i = k.env.socket := by rw [outgoing, hk]; rfl
    rw [hout] at h ⊢
    simp only [Closing.Provider.step, hconn] at h
    obtain ⟨l, hl, rfl⟩ := Option.map_eq_some_iff.mp h
    let chunk := (k.env.socket.drop (m.arrived i)).take n
    have hle : m.arrived i + chunk.length ≤ k.env.socket.length := by
      have harrived : m.arrived i ≤ k.env.socket.length := (hm.clients i k hk).arrived_le
      simp only [chunk, List.length_take, List.length_drop]
      omega
    obtain ⟨l', rs, hl', hgood, hclient, hrs, block, hsettles⟩ := hm.act_complete hS hcap hk hconn
      (fun r hr => (Link.room_of_complete hcap hl r hr).1)
    obtain rfl : l = l' := Option.some.inj (hl.symm.trans hl')
    have hC : (Closing.Provider.readCbs i).Implements actWire (Closing.PaEnv.dubboFetch i) :=
      paReadCbs_implements
    obtain ⟨remainOf, halloc, _⟩ := hC.alloc
    have hread : (⟨m.agent.store, (fun j => heldOf (m.agent.conns j)) i, ctx,
        ⟨m.agent.dubbo.env, m.agent.calls⟩⟩ : Link StreamContext (Closing.PaEnv ι)).complete
          (Closing.Provider.readCbs i) S tie chunk = some l := by
      simp only [hconn]
      exact hl
    obtain ⟨hpool, hothers⟩ := hm.pool.complete halloc hS hread ⟨hgood.wf, hgood.holds⟩
    have hserve := hm.serve hk hle hrs ⟨block, hgood.ok, hsettles⟩ hpool hothers l.env.calls
    rw [← hclient] at hserve
    exact hserve

end Inv

end

/-! ## The Dubbo connection -/

section
variable {serves : Bytes → Bytes → Prop} {cap : Nat} {m : Mesh ι γ χ} {y : Routing.State ι}

namespace Inv
variable (hm : Inv serves cap m y)
include hm

/-- Whatever happens between the provider agent and the provider: the connections keep their calls,
their answers and what has been fetched for them. -/
theorem outside (y' : Routing.State ι) {dubbo : Link DubboReader (DubboClient ι)}
    {calls : List (HandleCall ι)} {service : Service} {heard : Nat} {m' : Mesh ι γ χ}
    (hm' : m' = { m with
      agent := { m.agent with dubbo := dubbo, calls := calls }
      service := service
      heard := heard })
    (hlink : y'.link = dubbo) (hissued : y'.issued = y.issued)
    (hreceived : y'.received = service.sent.take heard)
    (hwire : y'.wire = service.sent.drop heard) (hheard : heard ≤ service.sent.length)
    (hdubbo : y'.Inv (Routing.dialogue ι) cap)
    (hsent : DubboSent (y.issued.map Routing.Call.request) dubbo.env)
    (hanswered : y'.replies.map Routing.Reply.ticket = service.answered)
    (hserved : ∀ r ∈ y'.replies, ∀ call, y.issued[r.ticket]? = some call →
      serves (dubboBody call.request) r.frame.payload)
    (hviews : ∀ i k, m.clients i = some k → (view m' y' i k).Inv cap ∧
      (view m' y' i k).answers = (view m y i k).answers ∧
      ∀ j call, (view m' y' i k).Open j call → (view m y i k).Open j call) :
    Follows serves cap m y m' := by
  have hfetched : fetched y' = fetched y := by
    funext i
    rw [fetched, fetched, hissued]
  subst hm'
  have hinv : Inv serves cap { m with
      agent := { m.agent with dubbo := dubbo, calls := calls }
      service := service
      heard := heard } y' := by
    refine ⟨hlink, hreceived, hwire, hheard, hdubbo, ?_, ?_, hanswered, ?_, hm.pool,
      fun i k hk => (hviews i k hk).1, ?_, ?_⟩
    · rw [hissued]
      exact hsent
    · rw [hissued]
      exact hm.sized
    · rw [hissued]
      exact hserved
    · rw [hfetched]
      exact hm.absent
    · apply hm.distinct.of_sub
      intro i j call hcall
      obtain ⟨k, hk, hcall⟩ := hcall
      exact ⟨k, hk, (hviews i k hk).2.2 j call hcall⟩
  apply Follows.of_remote_eq hinv
  refine congrArg₂ Remote.mk rfl ?_
  funext i
  cases hk : m.clients i with
  | none => rfl
  | some k => exact (hviews i k hk).2.1

theorem dubboConnect (status : Int) : Follows serves cap m y { m with
    agent := { m.agent with
      dubbo := { m.agent.dubbo with env := m.agent.dubbo.env.onConnect status } } } := by
  have hchannels : (m.agent.dubbo.env.onConnect status).channels = m.agent.dubbo.env.channels := by
    unfold DubboClient.onConnect
    split
    · rfl
    · exact DubboClient.handleQueue_channels _
  have hholds := hm.dubbo.holds
  rw [hm.link] at hholds
  refine hm.outside { y with link := { y.link with env := m.agent.dubbo.env.onConnect status } }
    rfl ?_ rfl hm.received hm.wire hm.heard_le
    (hm.dubbo.setEnv (Routing.Holds.onConnect hholds status)) (hm.sent.onConnect status)
    hm.answered hm.served ?_
  · rw [hm.link]
  · intro i k hk
    have hview : view { m with
        agent := { m.agent with
          dubbo := { m.agent.dubbo with env := m.agent.dubbo.env.onConnect status } } }
        { y with link := { y.link with env := m.agent.dubbo.env.onConnect status } } i k =
        view m y i k := by
      have hincoming : Mesh.incoming { m with
          agent := { m.agent with
            dubbo := { m.agent.dubbo with env := m.agent.dubbo.env.onConnect status } } } i =
          m.incoming i := by
        simp only [incoming, hchannels]
      simp only [view, hincoming]
      rfl
    rw [hview]
    exact ⟨hm.clients i k hk, rfl, fun _ _ h => h⟩

/-- The provider answers a request. -/
theorem respond {j : Nat} {flags : UInt8 × UInt8} {payload idBytes body : Bytes}
    (hframe : (requestFrames m.agent.dubbo.env.socket)[j]? = some (idBytes, body))
    (hnew : j ∉ m.service.answered) (hallowed : Regular serves m (.respond j flags payload)) :
    Follows serves cap m y { m with service := ⟨m.service.answered ++ [j],
      m.service.sent ++ (RawDubboFrame.mk flags idBytes payload).encode⟩ } := by
  obtain ⟨hlen, hserves⟩ := hallowed
  obtain ⟨sent, hsplit, hsocket⟩ := hm.sent.split
  have hsized : ∀ r ∈ sent, r.Sized ∧ dubboTotalLen r < 2147483648 := by
    intro r hr
    have hmem : r ∈ y.issued.map Routing.Call.request := by
      rw [hsplit]
      exact List.mem_append_left _ hr
    obtain ⟨call, hcall, rfl⟩ := List.mem_map.mp hmem
    exact hm.sized call hcall
  have hframe' := hframe
  rw [hsocket, requestFrames_encode hsized, List.getElem?_map] at hframe'
  obtain ⟨request, hrequest, heq⟩ := Option.map_eq_some_iff.mp hframe'
  obtain ⟨rfl, rfl⟩ := Prod.mk.inj heq
  obtain ⟨call, hcall, rfl⟩ : ∃ call, y.issued[j]? = some call ∧ call.request = request := by
    have hget : (y.issued.map Routing.Call.request)[j]? = some request := by
      rw [hsplit, List.getElem?_append_left (List.getElem?_eq_some_iff.mp hrequest).1]
      exact hrequest
    rw [List.getElem?_map] at hget
    exact Option.map_eq_some_iff.mp hget
  let r : Routing.Reply := ⟨j, ⟨flags, call.request.id, payload⟩⟩
  obtain ⟨h0, h1⟩ := hm.dubbo.holds.ids call (List.mem_of_getElem? hcall)
  have hgood : r.frame.Wf := ⟨h0, h1, by rw [DubboFrame.encode_length]; exact hlen⟩
  have honce : r.ticket ∉ y.replies.map Routing.Reply.ticket := by
    rw [hm.answered]
    exact hnew
  have hreply : Exchange.Inv (Routing.dialogue ι) cap (y.reply (fun r => r.frame.encode) r) :=
    hm.dubbo.reply (P := Routing.dialogue ι) hgood hcall rfl honce
  have hsent : sentAt (y.reply (fun r => r.frame.encode) r) = sentAt y := by
    have hdelivered : (y.reply (fun r => r.frame.encode) r).delivered (Routing.dialogue ι) =
        y.delivered (Routing.dialogue ι) := hm.dubbo.complete_append [r]
    funext i
    rw [sentAt, sentAt, deliveredAt, deliveredAt, hdelivered]
    rfl
  refine hm.outside (y.reply (fun r => r.frame.encode) r) rfl hm.link rfl ?_ ?_ ?_ hreply hm.sent
    ?_ ?_ ?_
  · rw [List.take_append_of_le_length hm.heard_le]
    exact hm.received
  · rw [List.drop_append_of_le_length hm.heard_le, ← hm.wire]
    rfl
  · rw [List.length_append]
    exact Nat.le_add_right_of_le hm.heard_le
  · rw [← hm.answered]
    exact List.map_append
  · intro r' hr' call' hcall'
    rcases List.mem_append.mp hr' with hr' | hr'
    · exact hm.served r' hr' call' hcall'
    · obtain rfl := List.mem_singleton.mp hr'
      obtain rfl : call = call' := Option.some.inj (hcall.symm.trans hcall')
      exact hserves _ _ hframe
  · intro i k hk
    have hview : ∀ service, view { m with service := service }
        (y.reply (fun r => r.frame.encode) r) i k = view m y i k := by
      intro service
      simp only [view, hsent]
      rfl
    rw [hview]
    exact ⟨hm.clients i k hk, rfl, fun _ _ h => h⟩

omit hm in
/-- The Dubbo client reads what the provider has sent. -/
theorem dubboRead {S : Nat} (hS : 3 ≤ S) (hcap : toUInt32 S < 2147483648)
    (hm : Inv serves (toUInt32 S) m y) {tie n : Nat} {dubbo : Link DubboReader (DubboClient ι)}
    (h : m.agent.dubbo.complete (dubboReadCbs ι) S tie ((m.service.sent.drop m.heard).take n) =
      some dubbo) (calls : List (HandleCall ι)) :
    Follows serves (toUInt32 S) m y { m with
      agent := { m.agent with dubbo := dubbo, calls := calls }
      heard := m.heard + ((m.service.sent.drop m.heard).take n).length } := by
  let m' : Mesh ι γ χ := { m with
    agent := { m.agent with dubbo := dubbo, calls := calls }
    heard := m.heard + ((m.service.sent.drop m.heard).take n).length }
  let y' : Routing.State ι := { y with
    link := dubbo, wire := y.wire.drop n, received := y.received ++ y.wire.take n }
  have hread : y.read (dubboReadCbs ι) S tie n = some y' := by
    rw [Exchange.read, hm.link, hm.wire, h]
    simp only [Option.map_some, y', hm.wire]
  have hy : y'.Inv (Routing.dialogue ι) (toUInt32 S) :=
    hm.dubbo.of_read (dubboReadCbs_implements ι) hS hcap hread
  obtain ⟨more, hmore⟩ : y.delivered (Routing.dialogue ι) <+:
      y'.delivered (Routing.dialogue ι) := by
    apply Decoder.complete_mono
    simp [y']
  have hsentAt : ∀ i, ∃ rs, sentAt y' i = sentAt y i ++ rs := by
    intro i
    refine ⟨(ownedBy (contextOf y) (some i) more).map fun r => ⟨ticketAt y i r, r.frame⟩, ?_⟩
    rw [sentAt, sentAt, deliveredAt, deliveredAt, ← hmore, ← List.map_append, ← ownedBy_append]
    rfl
  refine hm.outside y' rfl rfl rfl ?_ ?_ ?_ hy ?_ hm.answered hm.served ?_
  · simp only [y', hm.received, hm.wire]
    exact (take_advance _ _ _).symm
  · simp only [y', hm.wire]
    exact (drop_advance _ _ _).symm
  · have hle := hm.heard_le
    rw [List.length_take, List.length_drop]
    omega
  · refine Link.complete_keeps (dubboReadCbs_implements ι) (P := DubboSent _) ?_ hm.sent h
    intro e resp e' he hanswer
    exact he.answer hanswer
  · intro i k hk
    obtain ⟨rs, hrs⟩ := hsentAt i
    have hv := hm.clients i k hk
    have hincoming : m'.incoming i = m.incoming i ++
        (rs.map fun r => r.frame.relayed.encode).flatten := by
      rw [incoming_of_link (m := m') hy rfl, hm.incoming_eq, hrs, List.map_append,
        List.flatten_append]
    have hview : view m' y' i k = (view m y i k).respond rs := by
      simp only [view, View.respond, hincoming, hrs]
      rfl
    have hcalls : ∀ r ∈ rs, r.frame.Wf ∧
        ∃ call, (m.issued i)[r.ticket]? = some call ∧ r.frame.id = call.id := by
      intro r hr
      have hmem : r ∈ sentAt y' i := by
        rw [hrs]
        exact List.mem_append_right _ hr
      obtain ⟨r₀, hr₀, rfl⟩ := List.mem_map.mp hmem
      obtain ⟨hdelivered, hcontext⟩ := mem_ownedBy.mp hr₀
      obtain ⟨call, hcall, hcontext⟩ := contextOf_eq_some.mp hcontext
      obtain ⟨c, hc, hrequest⟩ := hm.exists_call hk hcall hcontext
      obtain ⟨hwf, call', hcall', hid⟩ :=
        hy.replied r₀ ((Exchange.delivered_prefix _ y').subset hdelivered)
      obtain rfl : call' = call := Option.some.inj (hcall'.symm.trans hcall)
      refine ⟨hwf, c, hc, ?_⟩
      exact Eq.trans hid (congrArg DubboRequest.id hrequest)
    have honce : (((view m y i k).sent ++ rs).map Routing.Reply.ticket).Nodup := by
      have hnodup := sentAt_once hy i
      rw [hrs] at hnodup
      exact hnodup
    have hdelivered := hv.delivered_respond rs
    rw [hview]
    refine ⟨hv.respond hcalls honce, ?_, ?_⟩
    · have hle : ((view m y i k).exchange.delivered
          (ClientRuns.dialogue γ χ (view m y i k).key)).length ≤ (view m y i k).sent.length := by
        have := (Exchange.delivered_prefix (ClientRuns.dialogue γ χ (view m y i k).key)
          (view m y i k).exchange).length_le
        exact this.trans_eq (List.length_map _)
      rw [View.answers, View.answers, show ((view m y i k).respond rs).key =
        (view m y i k).key from rfl, hdelivered]
      exact congrArg _ (List.take_append_of_le_length hle)
    · intro j call hopen
      obtain ⟨hget, hwaits⟩ := hopen
      refine ⟨hget, ?_⟩
      intro hmem
      apply hwaits
      have hmem' : j ∈ (((view m y i k).exchange.delivered
          (ClientRuns.dialogue γ χ (view m y i k).key)).map ClientRuns.Reply.ticket) := hmem
      rw [← hdelivered] at hmem'
      exact hmem'

end Inv

end

/-! ## Whole runs -/

section
variable {serves : Bytes → Bytes → Prop} {m m' : Mesh ι γ χ} {y : Routing.State ι}

theorem inv_start (serves : Bytes → Bytes → Prop) (cap : Nat) :
    Inv serves cap (start ι γ χ) (Routing.start ι) := by
  refine ⟨rfl, rfl, rfl, Nat.le_refl _, Routing.inv_start ι cap, ?_, by simp [Routing.start], rfl,
    by simp [Routing.start], ?_, by simp [start], ?_, ?_⟩
  · exact ⟨⟨[], rfl, rfl⟩, fun _ => rfl⟩
  · exact ⟨BufStore.wf_empty cap, by simp [start, Closing.Provider.start, heldOf],
      by simp [start, Closing.Provider.start, heldOf]⟩
  · intro i _
    exact ⟨rfl, rfl, rfl, rfl, rfl⟩
  · intro i j call i' j' call' h
    obtain ⟨k, hk, _⟩ := h
    cases hk

theorem follows_step {S : Nat} (hS : 3 ≤ S) (hcap : toUInt32 S < 2147483648)
    (hm : Inv serves (toUInt32 S) m y) {e : Event ι γ χ} (he : Allowed serves m e)
    (hstep : step S m e = some m') : Follows serves (toUInt32 S) m y m' := by
  cases e with
  | create i key =>
    simp only [step] at hstep
    cases hk : m.clients i with
    | none =>
      simp only [hk, Option.some.injEq] at hstep
      subst hstep
      exact hm.create hk he.1
    | some k => simp [hk] at hstep
  | paConn i status =>
    simp only [step] at hstep
    cases hk : m.clients i with
    | none => simp [hk] at hstep
    | some k =>
      simp only [hk, Option.ite_none_right_eq_some, Option.some.injEq] at hstep
      obtain ⟨hempty, rfl⟩ := hstep
      exact hm.paConn hk hempty status
  | paKeyWritten i status =>
    simp only [step] at hstep
    cases hk : m.clients i with
    | none => simp [hk] at hstep
    | some k =>
      simp only [hk, Option.ite_none_right_eq_some, Option.some.injEq] at hstep
      obtain ⟨hsocket, rfl⟩ := hstep
      exact hm.paKeyWritten hk hsocket.1 status
  | fetch i call =>
    simp only [step] at hstep
    cases hk : m.clients i with
    | none => simp [hk] at hstep
    | some k =>
      simp only [hk, Option.some.injEq] at hstep
      subst hstep
      exact hm.fetch hk he
  | accept i block =>
    simp only [step] at hstep
    split at hstep
    · cases hstep
    · rename_i hsocket
      obtain ⟨agent, hagent, rfl⟩ := Option.map_eq_some_iff.mp hstep
      cases hk : m.clients i with
      | none => simp [outgoing, hk] at hsocket
      | some k =>
        cases hconn : m.agent.conns i with
        | live held ctx => simp [Closing.Provider.step, hconn] at hagent
        | closed => simp [Closing.Provider.step, hconn] at hagent
        | unborn =>
          simp only [Closing.Provider.step, hconn, if_true, Option.some.injEq] at hagent
          subst hagent
          exact hm.accept hk hconn block
  | actRead i tie n =>
    obtain ⟨agent, hagent, rfl⟩ := Option.map_eq_some_iff.mp hstep
    exact Inv.actRead hS hcap hm hagent
  | dubboConnect status =>
    obtain rfl := Option.some.inj hstep
    exact hm.dubboConnect status
  | respond j flags payload =>
    simp only [step] at hstep
    cases hframe : (requestFrames m.agent.dubbo.env.socket)[j]? with
    | none => simp [hframe] at hstep
    | some frame =>
      simp only [hframe, Option.ite_none_left_eq_some, Option.some.injEq] at hstep
      obtain ⟨hnew, rfl⟩ := hstep
      exact hm.respond hframe hnew he.1
  | dubboRead tie n =>
    obtain ⟨agent, hagent, rfl⟩ := Option.map_eq_some_iff.mp hstep
    simp only [Closing.Provider.step, Option.ite_none_right_eq_some] at hagent
    obtain ⟨_, hagent⟩ := hagent
    obtain ⟨dubbo, hdubbo, rfl⟩ := Option.map_eq_some_iff.mp hagent
    exact Inv.dubboRead hS hcap hm hdubbo _
  | paRead i tie n =>
    simp only [step] at hstep
    cases hk : m.clients i with
    | none => simp [hk] at hstep
    | some k =>
      simp only [hk, Option.ite_none_left_eq_some] at hstep
      obtain ⟨_, hstep⟩ := hstep
      obtain ⟨k', hk', rfl⟩ := Option.map_eq_some_iff.mp hstep
      exact Inv.paRead hS hcap hm hk hk'

theorem exists_inv_of_reached {S : Nat} (hS : 3 ≤ S) (hcap : toUInt32 S < 2147483648)
    (h : Reached serves S m) :
    ∃ y, Inv serves (toUInt32 S) m y ∧ Remote.Reached (Serves serves) (remote m y) := by
  induction h with
  | refl => exact ⟨Routing.start ι, inv_start serves _, .refl⟩
  | tail _ hstep ih =>
    obtain ⟨y, hm, hremote⟩ := ih
    obtain ⟨e, he, hstep⟩ := hstep
    obtain ⟨y', hm', hfollows⟩ := follows_step hS hcap hm he hstep
    exact ⟨y', hm', hfollows hremote⟩

theorem Inv.shows {cap : Nat} (hm : Inv serves cap m y) : Shows m (remote m y) := by
  refine ⟨rfl, ?_⟩
  intro i
  cases hk : m.clients i with
  | none => simp [remote, made, hk]
  | some k =>
    have hhanded := (hm.clients i k hk).handed
    simp only [remote, made, calls, hk]
    exact hhanded

end

/-! ## Two connections and one provider -/

/-- A provider that has one answer to each body. -/
def answering (answer : Bytes → Bytes) (body payload : Bytes) : Prop := payload = answer body

/-- `Regular`, by computation. -/
def checkRegular (answer : Bytes → Bytes) (m : Mesh ι γ χ) : Event ι γ χ → Bool
  | .create _ key => decide key.Wf
  | .fetch i call =>
    decide (call.request.Wf ∧ 0 ≤ call.id ∧ call.id < 2147483648) &&
      (m.clients i).all fun k =>
        decide (dubboTotalLen (call.request.under k.env.key) < 2147483648)
  | .respond j _ payload =>
    decide (16 + payload.length < 2147483648) &&
      (requestFrames m.agent.dubbo.env.socket)[j]?.all fun frame => payload == answer frame.2
  | _ => true

omit [DecidableEq ι] in
theorem regular_of_check {answer : Bytes → Bytes} {m : Mesh ι γ χ} {e : Event ι γ χ}
    (h : checkRegular answer m e = true) : Regular (answering answer) m e := by
  cases e with
  | create i key =>
    rw [checkRegular, decide_eq_true_eq] at h
    exact h
  | fetch i call =>
    simp only [checkRegular, Bool.and_eq_true, decide_eq_true_eq, Option.all_eq_true] at h
    exact ⟨h.1.1, h.1.2.1, h.1.2.2, h.2⟩
  | respond j flags payload =>
    simp only [checkRegular, Bool.and_eq_true, decide_eq_true_eq, Option.all_eq_true,
      beq_iff_eq] at h
    exact ⟨h.1, fun idBytes body hframe => h.2 _ hframe⟩
  | _ => trivial

/-- `FreshIds` of two connections, by computation. -/
def checkFresh (m : Mesh Bool γ χ) : Event Bool γ χ → Bool
  | .fetch _ call => [false, true].all fun i =>
    (m.clients i).all fun k => (k.env.callbacks call.id).isNone
  | _ => true

theorem fresh_of_check {m : Mesh Bool γ χ} {e : Event Bool γ χ} (h : checkFresh m e = true) :
    FreshIds m e := by
  cases e with
  | fetch i call =>
    intro i' k hk
    have hi : i' ∈ [false, true] := by cases i' <;> simp
    have hfree := List.all_eq_true.mp h i' hi
    rw [hk, Option.all_some] at hfree
    exact Option.isNone_iff_eq_none.mp hfree
  | _ => trivial

def checkAllowed (answer : Bytes → Bytes) (m : Mesh Bool γ χ) (e : Event Bool γ χ) : Bool :=
  checkRegular answer m e && checkFresh m e

theorem allowed_of_check {answer : Bytes → Bytes} {m : Mesh Bool γ χ} {e : Event Bool γ χ}
    (h : checkAllowed answer m e = true) : Allowed (answering answer) m e := by
  rw [checkAllowed, Bool.and_eq_true] at h
  exact ⟨regular_of_check h.1, fresh_of_check h.2⟩

/-- A provider whose answers tell the bodies apart. -/
def bodyLength (body : Bytes) : Bytes := [UInt8.ofNat body.length]

/-- Two connections and one call on each, whose bodies differ in length. -/
def twoCalls (id id' : Int) : List (Event Bool Nat Nat) :=
  [.create false ⟨[73], 1, [], 0, [83], 1⟩, .create true ⟨[73], 1, [], 0, [83], 1⟩,
    .fetch false ⟨{ id := id, pLen := 0, parameter := [] }, 10, 11⟩,
    .fetch true ⟨{ id := id', pLen := 1, parameter := [80] }, 20, 21⟩,
    .paConn false 0, .paConn true 0, .paKeyWritten false 0, .paKeyWritten true 0, .dubboConnect 0]

/-- Both requests are with the provider. -/
def twoArrivals : List (Event Bool Nat Nat) :=
  [.accept false Closing.emptyContext, .accept true Closing.emptyContext, .actRead false 0 60,
    .actRead true 0 60]

def laterFirst : List (Event Bool Nat Nat) :=
  [.respond 1 (0, 0) [97], .respond 0 (0, 0) [96], .dubboRead 0 60, .paRead true 0 60,
    .paRead false 0 60]

/-- Of two answers, the provider agent has only read the first. -/
def firstOnly : List (Event Bool Nat Nat) :=
  [.respond 0 (0, 0) [96], .respond 1 (0, 0) [97], .dubboRead 0 17, .paRead true 0 60]

/-- With one id on both connections the second is called back with the answer to the request of the
first, and the answer to its own is fatal to the provider agent. -/
theorem shared_id_misanswered :
    ∃ m : Mesh Bool Nat Nat,
      Runs (Regular (answering bodyLength)) (step 65536) (start Bool Nat Nat) m ∧
        m.made false = [] ∧ m.made true = [(20, ⟨1, 1, [96]⟩, 21)] ∧
        (¬ ∃ r, Remote.Reached (Serves (answering bodyLength)) r ∧ Shows m r) ∧
        step 65536 m (.dubboRead 0 60) = none := by
  have hrun : ((twoCalls 1 1 ++ twoArrivals ++ firstOnly).foldlM
      (fun m e => if checkRegular bodyLength m e then step 65536 m e else none)
      (start Bool Nat Nat)).map (fun m => (m.made true,
        (m.calls true).map fun call => bodyLength (dubboBody (call.2.request.under call.1)),
        (m.made false).isEmpty && (step 65536 m (.dubboRead 0 60)).isNone)) =
      some ([(20, ⟨1, 1, [96]⟩, 21)], [[97]], true) := by decide +kernel
  obtain ⟨m, hreached, hm⟩ := Runs.exists_of_foldlM (fun _ _ _ => regular_of_check) hrun
  simp only [Prod.mk.injEq, Bool.and_eq_true, List.isEmpty_iff, Option.isNone_iff_eq_none] at hm
  obtain ⟨htrue, hanswer, hfalse, hfatal⟩ := hm
  refine ⟨m, hreached, hfalse, htrue, ?_, hfatal⟩
  rintro ⟨r, hr, hshows⟩
  have hmade : (20, ⟨1, 1, [96]⟩, 21) ∈ m.made true := htrue ▸ List.mem_singleton_self _
  have hanswers := hshows.answers true
  rw [← hshows.issued] at hanswers
  obtain ⟨call, hcall, payload, hserves, hhanded⟩ :=
    hr.sound.served (fun call payload made => made = handed call payload) hanswers hmade
  rw [hshows.issued] at hcall
  have hpayload : payload = [97] := by
    have hmem := List.mem_map_of_mem (f := fun call : ActReuseKey × ClientRuns.Call Nat Nat =>
      bodyLength (dubboBody (call.2.request.under call.1))) hcall
    rw [hanswer, List.mem_singleton] at hmem
    exact hserves.trans hmem
  subst hpayload
  have hresult : [96] = nulPadded [97] := congrArg (fun made => made.2.1.result) hhanded
  revert hresult
  decide

end PyAgent.Mesh
