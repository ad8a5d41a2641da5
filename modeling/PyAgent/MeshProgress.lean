import PyAgent.MeshSafety
import Mathlib.Algebra.Order.BigOperators.Group.Finset
import Mathlib.Order.WellFounded

/-!
# Every call is answered in the end

With all connections up and fields that fit into the buffers, whatever is under way
arrives: as long as a call waits there is something to do, and without new calls
there is only so much to do, in whichever order it is done.
-/

namespace PyAgent
set_option autoImplicit false

open Streaming

/-! ## There is room for one more byte -/

section
variable {τ σ ω κ : Type} [DecidableEq τ] {C : ReadCbs σ κ} {W : Wire τ σ ω}
variable {hook : κ → ω → Option κ} {S : Nat} (hC : C.Implements W hook) (hS : 3 ≤ S)
include hC hS

/-- A buffer is not full of a field that fits into it. -/
theorem Link.room_pos {k : Link σ κ} (hk : k.Good W (toUInt32 S)) (hpos : 0 < toUInt32 S) {s : σ}
    {ps ts : Bytes} {os : List ω} (hs : W.decoder.Settles s ps os k.ctx k.unread)
    (hwithin : W.decoder.Within (toUInt32 S) s (ps ++ ts)) (tie : Nat) :
    ∃ n, k.room C S tie = some n ∧ 1 ≤ n := by
  obtain ⟨n, hn, _, hroom⟩ := Link.room_spec hC hS hk tie
  refine ⟨n, hn, ?_⟩
  have hshort : k.unread.length < toUInt32 S := by
    by_cases hnil : k.unread = []
    · rw [hnil]
      exact hpos
    · have hneed := hwithin os k.ctx (k.unread ++ ts) (hs.1.append ts) (by simp [hnil])
      have hw := hs.2
      unfold Decoder.Waits at hw
      omega
  omega

theorem Exchange.Inv.next {ε ρ : Type} {P : Dialogue W hook ε ρ} {x : Exchange σ κ ε ρ}
    (hx : x.Inv P (toUInt32 S)) (hcap : toUInt32 S < 2147483648) (hpos : 0 < toUInt32 S)
    (width : ρ → Nat) (hwidth : ∀ s r, P.framing.between s → P.framing.good r →
      ∃ s', P.framing.between s' ∧ W.decoder.Width s (P.framing.enc r) (width r) s')
    (hfits : ∀ r ∈ x.replies, width r ≤ toUInt32 S) (tie : Nat) :
    ∃ x', x.read C S tie 1 = some x' := by
  have hwithin : W.decoder.Within (toUInt32 S) P.start (x.received ++ x.wire) := by
    rw [hx.stream, Decoder.within_frames hwidth P.start_between (fun r hr => (hx.replied r hr).1)]
    exact hfits
  obtain ⟨n, hn, hone⟩ := Link.room_pos hC hS hx.good hpos hx.settled hwithin tie
  have hroom : ∀ r, x.link.room C S tie = some r → (x.wire.take 1).length ≤ r := by
    intro r hr
    obtain rfl : n = r := Option.some.inj (hn.symm.trans hr)
    exact (List.length_take_le 1 x.wire).trans hone
  obtain ⟨x', hx', _⟩ := hx.read hC hS hcap hroom
  exact ⟨x', hx'⟩

end

theorem DubboFrame.Wf.width {f : DubboFrame} (hf : f.Wf) (s : DubboReader)
    (hs : s.readState = .magic) : ∃ s', s'.readState = .magic ∧
      dubboWire.decoder.Width s f.encode (max 8 f.payload.length) s' := by
  obtain ⟨s', hs', hrun⟩ := DubboReader.raw_run hs hf.raw
  exact ⟨s', hs', hrun.width⟩

theorem ActFrame.Wf.width {f : ActFrame} (hf : f.Wf) (s : PaReader) (hs : s.readState = .id) :
    ∃ s', s'.readState = .id ∧ paWire.decoder.Width s f.encode (max 4 f.payload.length) s' := by
  obtain ⟨s', hs', hrun⟩ := PaReader.sized_run hs hf.sized
  exact ⟨s', hs', hrun.width⟩

/-- A read writes nothing. -/
theorem DubboClient.complete_keeps {χ : Type} {S tie : Nat} {chunk : Bytes}
    {k k' : Link DubboReader (DubboClient χ)}
    (h : k.complete (dubboReadCbs χ) S tie chunk = some k') :
    k'.env.socket = k.env.socket ∧ k'.env.connected = k.env.connected := by
  refine Link.complete_keeps (dubboReadCbs_implements χ)
    (P := fun e => e.socket = k.env.socket ∧ e.connected = k.env.connected) ?_ ⟨rfl, rfl⟩ h
  intro e resp e' he hresp
  unfold DubboClient.answer at hresp
  split at hresp
  · obtain rfl := Option.some.inj hresp
    exact he
  · cases hresp

/-- Once everything has been read, everything has been delivered. -/
theorem Exchange.Inv.delivered_all {τ σ ω κ ε ρ : Type} [DecidableEq τ] {W : Wire τ σ ω}
    {hook : κ → ω → Option κ} {P : Dialogue W hook ε ρ} {cap : Nat} {x : Exchange σ κ ε ρ}
    (hx : x.Inv P cap) (hwire : x.wire = []) : x.delivered P = x.replies := by
  have hstream := hx.stream
  rw [hwire, List.append_nil] at hstream
  apply Decoder.complete_all
  rw [hstream]

/-- The fields of a connection's key and requests. -/
theorem act_within {key : ActReuseKey} (hkey : key.Wf) {rs : List ActRequest}
    (hrs : ∀ r ∈ rs, r.Wf) (block : StreamContext) {cap : Nat} (hfits : key.width ≤ cap)
    (hall : ∀ r ∈ rs, r.width ≤ cap) : actWire.decoder.Within cap (createPaContext block)
      (paEncodeActKey key ++ (rs.map paActRequestEncode).flatten) := by
  have hencode : (rs.map paActRequestEncode).flatten =
      ((rs.map ActRequest.padded).map ActRequest.raw).flatten := by
    rw [List.map_map]
    congr 1
    apply List.map_congr_left
    intro r hr
    exact (hrs r hr).encode_eq
  rw [hkey.encode_eq, hencode]
  apply (within_iff block hkey.padded ?_ cap).mpr
  · refine ⟨?_, ?_⟩
    · simpa only [ActReuseKey.width, ActReuseKey.padded, nulPadded_length] using hfits
    · intro r hr
      obtain ⟨r', hr', rfl⟩ := List.mem_map.mp hr
      simpa only [ActRequest.width, ActRequest.padded, nulPadded_length] using hall r' hr'
  · intro r hr
    obtain ⟨r', hr', rfl⟩ := List.mem_map.mp hr
    exact (hrs r' hr').padded

namespace Mesh
variable {ι γ χ : Type} [DecidableEq ι]

/-! ## Nothing is left in the queue of a connection that is up -/

section
variable {serves : Bytes → Bytes → Prop} {S : Nat} {m m' : Mesh ι γ χ}

/-- What one event can do to the client of a connection. -/
inductive Change (S : Nat) (m : Mesh ι γ χ) (i : ι) (k' : Link PaReader (PaClient γ χ)) :
    Event ι γ χ → Prop where
  | create (key : ActReuseKey) (henv : k'.env = PaClient.create key) :
      Change S m i k' (.create i key)
  | same (e : Event ι γ χ) (hk : m.clients i = some k') : Change S m i k' e
  | paConn (status : Int) (k : Link PaReader (PaClient γ χ)) (hk : m.clients i = some k)
      (henv : k'.env = k.env.onConn status) : Change S m i k' (.paConn i status)
  | paKeyWritten (status : Int) (k : Link PaReader (PaClient γ χ)) (hk : m.clients i = some k)
      (henv : k'.env = k.env.keyWriteCb status) : Change S m i k' (.paKeyWritten i status)
  | fetch (call : ClientRuns.Call γ χ) (k : Link PaReader (PaClient γ χ))
      (hk : m.clients i = some k)
      (henv : k'.env = k.env.fetch call.request call.cb call.context) :
      Change S m i k' (.fetch i call)
  | paRead (tie n : Nat) (chunk : Bytes) (k : Link PaReader (PaClient γ χ))
      (hk : m.clients i = some k) (hread : k.complete (paClientReadCbs γ χ) S tie chunk = some k') :
      Change S m i k' (.paRead i tie n)

omit [DecidableEq ι] in
theorem exists_of_ite {α : Type} {p : Prop} [Decidable p] {o : Option α} {a : α}
    (h : (if p then none else o) = some a) : ¬ p ∧ o = some a := by
  split at h
  · cases h
  · exact ⟨‹_›, h⟩

theorem change_of_step {e : Event ι γ χ} (hstep : step S m e = some m') {i : ι}
    {k' : Link PaReader (PaClient γ χ)} (hk' : m'.clients i = some k') : Change S m i k' e := by
  have hset : ∀ {j k₁}, Function.update m.clients j (some k₁) i = some k' →
      i = j ∧ k' = k₁ ∨ m.clients i = some k' := by
    intro j k₁ h
    by_cases hi : i = j
    · subst hi
      rw [Function.update_self] at h
      exact Or.inl ⟨rfl, (Option.some.inj h).symm⟩
    · rw [Function.update_of_ne hi] at h
      exact Or.inr h
  cases e with
  | create j key =>
    simp only [step] at hstep
    split at hstep
    · obtain rfl := Option.some.inj hstep
      rcases hset hk' with ⟨rfl, rfl⟩ | hk
      · exact .create key rfl
      · exact .same _ hk
    · cases hstep
  | paConn j status =>
    simp only [step] at hstep
    split at hstep
    · cases hstep
    · rename_i k hk
      simp only [Option.ite_none_right_eq_some, Option.some.injEq] at hstep
      obtain ⟨_, rfl⟩ := hstep
      rcases hset hk' with ⟨rfl, rfl⟩ | hk
      · exact .paConn status k hk rfl
      · exact .same _ hk
  | paKeyWritten j status =>
    simp only [step] at hstep
    split at hstep
    · cases hstep
    · rename_i k hk
      simp only [Option.ite_none_right_eq_some, Option.some.injEq] at hstep
      obtain ⟨_, rfl⟩ := hstep
      rcases hset hk' with ⟨rfl, rfl⟩ | hk
      · exact .paKeyWritten status k hk rfl
      · exact .same _ hk
  | fetch j call =>
    simp only [step] at hstep
    split at hstep
    · cases hstep
    · rename_i k hk
      obtain rfl := Option.some.inj hstep
      rcases hset hk' with ⟨rfl, rfl⟩ | hk
      · exact .fetch call k hk rfl
      · exact .same _ hk
  | accept j block =>
    obtain ⟨_, hstep⟩ := exists_of_ite hstep
    obtain ⟨agent, _, rfl⟩ := Option.map_eq_some_iff.mp hstep
    exact .same _ hk'
  | actRead j tie n =>
    obtain ⟨agent, _, rfl⟩ := Option.map_eq_some_iff.mp hstep
    exact .same _ hk'
  | dubboConnect status =>
    obtain rfl := Option.some.inj hstep
    exact .same _ hk'
  | respond j flags payload =>
    simp only [step] at hstep
    split at hstep
    · cases hstep
    · obtain ⟨_, hstep⟩ := exists_of_ite hstep
      obtain rfl := Option.some.inj hstep
      exact .same _ hk'
  | dubboRead tie n =>
    obtain ⟨agent, _, rfl⟩ := Option.map_eq_some_iff.mp hstep
    exact .same _ hk'
  | paRead j tie n =>
    simp only [step] at hstep
    split at hstep
    · cases hstep
    · rename_i k hk
      obtain ⟨_, hstep⟩ := exists_of_ite hstep
      obtain ⟨k₁, hread, rfl⟩ := Option.map_eq_some_iff.mp hstep
      rcases hset hk' with ⟨rfl, rfl⟩ | hk
      · exact .paRead tie n _ k hk hread
      · exact .same _ hk

/-- What every callback of pa_client.cc keeps, each connection keeps. -/
theorem clients_of_reached {P : PaClient γ χ → Prop} (hcreate : ∀ key, P (PaClient.create key))
    (honConn : ∀ client status, P client → P (client.onConn status))
    (hkeyWriteCb : ∀ client status, P client → P (client.keyWriteCb status))
    (hfetch : ∀ client req cb context, P client → P (client.fetch req cb context))
    (hanswer : ∀ client resp client', P client → client.answer resp = some client' → P client')
    (h : Reached serves S m) : ∀ i k, m.clients i = some k → P k.env := by
  induction h with
  | refl => exact fun i k hk => nomatch hk
  | tail _ hstep ih =>
    obtain ⟨e, _, hstep⟩ := hstep
    intro i k' hk'
    cases change_of_step hstep hk' with
    | create key henv =>
      rw [henv]
      exact hcreate key
    | same _ hk => exact ih i k' hk
    | paConn status k hk henv =>
      rw [henv]
      exact honConn _ status (ih i k hk)
    | paKeyWritten status k hk henv =>
      rw [henv]
      exact hkeyWriteCb _ status (ih i k hk)
    | fetch call k hk henv =>
      rw [henv]
      exact hfetch _ _ _ _ (ih i k hk)
    | paRead tie n chunk k hk hread =>
      exact Link.complete_keeps (paClientReadCbs_implements γ χ)
        (fun client resp client' hclient hresp => hanswer client resp client' hclient hresp)
        (ih i k hk) hread

/-- There are only finitely many connections at any time. -/
theorem exists_support (h : Reached serves S m) :
    ∃ F : Finset ι, ∀ i k, m.clients i = some k → i ∈ F := by
  induction h with
  | refl => exact ⟨∅, fun i k hk => nomatch hk⟩
  | @tail m m' _ hstep ih =>
    obtain ⟨F, hF⟩ := ih
    obtain ⟨e, _, hstep⟩ := hstep
    have hold : ∀ i k', m'.clients i = some k' → i ∈ F ∨ ∃ key, e = .create i key := by
      intro i k' hk'
      cases change_of_step hstep hk' with
      | create key henv => exact Or.inr ⟨key, rfl⟩
      | same _ hk => exact Or.inl (hF i k' hk)
      | paConn status k hk henv => exact Or.inl (hF i k hk)
      | paKeyWritten status k hk henv => exact Or.inl (hF i k hk)
      | fetch call k hk henv => exact Or.inl (hF i k hk)
      | paRead tie n chunk k hk hread => exact Or.inl (hF i k hk)
    by_cases hcreate : ∃ j key, e = .create j key
    · obtain ⟨j, key, rfl⟩ := hcreate
      refine ⟨insert j F, ?_⟩
      intro i k' hk'
      rcases hold i k' hk' with hi | ⟨key', heq⟩
      · exact Finset.mem_insert_of_mem hi
      · cases heq
        exact Finset.mem_insert_self _ _
    · refine ⟨F, ?_⟩
      intro i k' hk'
      rcases hold i k' hk' with hi | ⟨key, heq⟩
      · exact hi
      · exact absurd ⟨i, key, heq⟩ hcreate

theorem handleQueue_drained (client : PaClient γ χ) :
    client.handleQueue.connected = true → client.handleQueue.que = [] := by
  unfold PaClient.handleQueue
  split
  · exact fun _ => rfl
  · rename_i hoff
    exact fun hon => absurd hon hoff

theorem drained_of_reached (h : Reached serves S m) {i : ι} {k : Link PaReader (PaClient γ χ)}
    (hk : m.clients i = some k) (hconnected : k.env.connected = true) : k.env.que = [] := by
  refine clients_of_reached (P := fun client => client.connected = true → client.que = [])
    (fun _ _ => rfl) ?_ ?_ (fun client req cb context _ => handleQueue_drained _) ?_ h i k hk
    hconnected
  · intro client status hclient
    unfold PaClient.onConn
    split
    · exact hclient
    · exact handleQueue_drained _
  · intro client status hclient
    unfold PaClient.keyWriteCb
    split
    · exact hclient
    · exact handleQueue_drained _
  · intro client resp client' hclient hresp
    obtain ⟨_, _, hconnected, hque⟩ := PaClient.answer_keeps hresp
    rw [hconnected, hque]
    exact hclient

end

/-! ## What is still to be done -/

/-- Everything but new connections and new calls; a read takes something. -/
def Moves (m : Mesh ι γ χ) : Event ι γ χ → Prop
  | .accept _ _ | .respond _ _ _ => True
  | .actRead i _ n => ((m.outgoing i).drop (m.arrived i)).take n ≠ []
  | .dubboRead _ n => (m.service.sent.drop m.heard).take n ≠ []
  | .paRead i _ n => ((m.incoming i).drop (m.returned i)).take n ≠ []
  | _ => False

def Next (serves : Bytes → Bytes → Prop) (S : Nat) (m m' : Mesh ι γ χ) : Prop :=
  ∃ e, Allowed serves m e ∧ Moves m e ∧ step S m e = some m'

/-- A connection that has yet to be accepted counts for more than its bytes. -/
def toArrive (m : Mesh ι γ χ) (i : ι) : Nat :=
  match m.agent.conns i with
  | .unborn => (m.outgoing i).length + 1
  | _ => (m.outgoing i).length - m.arrived i

def toAnswer (m : Mesh ι γ χ) : Finset Nat :=
  Finset.range (requestFrames m.agent.dubbo.env.socket).length \ m.service.answered.toFinset

/-- What has to arrive makes requests, these make answers, and so on: the order counts. -/
def todo (F : Finset ι) (m : Mesh ι γ χ) : Nat × Nat × Nat × Nat :=
  (∑ i ∈ F, m.toArrive i, m.toAnswer.card, m.service.sent.length - m.heard,
    ∑ i ∈ F, ((m.incoming i).length - m.returned i))

def Less : Nat × Nat × Nat × Nat → Nat × Nat × Nat × Nat → Prop :=
  Prod.Lex (· < ·) (Prod.Lex (· < ·) (Prod.Lex (· < ·) (· < ·)))

theorem less_wf : WellFounded Less :=
  WellFounded.prod_lex wellFounded_lt (WellFounded.prod_lex wellFounded_lt
    (WellFounded.prod_lex wellFounded_lt wellFounded_lt))

theorem sub_lt_of_take {bs : Bytes} {p n : Nat} (h : (bs.drop p).take n ≠ []) :
    bs.length - (p + ((bs.drop p).take n).length) < bs.length - p := by
  have hpos := List.length_pos_of_ne_nil h
  have hle := List.length_take_le' n (bs.drop p)
  rw [List.length_drop] at hle
  omega

omit [DecidableEq ι] in
theorem sum_lt {F : Finset ι} {f g : ι → Nat} {i : ι} (hi : i ∈ F)
    (hothers : ∀ j, j ≠ i → f j = g j) (hlt : f i < g i) : ∑ j ∈ F, f j < ∑ j ∈ F, g j := by
  apply Finset.sum_lt_sum
  · intro j _
    by_cases hj : j = i
    · subst hj
      exact Nat.le_of_lt hlt
    · exact Nat.le_of_eq (hothers j hj)
  · exact ⟨i, hi, hlt⟩

omit [DecidableEq ι] in
theorem outgoing_eq {m : Mesh ι γ χ} {i : ι} {k : Link PaReader (PaClient γ χ)}
    (hk : m.clients i = some k) : m.outgoing i = k.env.socket := by
  rw [outgoing, hk]
  rfl

section
variable {serves : Bytes → Bytes → Prop} {S : Nat} {m m' : Mesh ι γ χ} {F : Finset ι}

/-- Whatever is done, there is less to do. -/
theorem todo_lt (hF : ∀ i k, m.clients i = some k → i ∈ F) (h : Next serves S m m') :
    Less (todo F m') (todo F m) := by
  have hmem : ∀ i, m.outgoing i ≠ [] → i ∈ F := by
    intro i hi
    cases hk : m.clients i with
    | none => simp [outgoing, hk] at hi
    | some k => exact hF i k hk
  obtain ⟨e, _, hmoves, hstep⟩ := h
  cases e with
  | create i key => exact hmoves.elim
  | paConn i status => exact hmoves.elim
  | paKeyWritten i status => exact hmoves.elim
  | fetch i call => exact hmoves.elim
  | dubboConnect status => exact hmoves.elim
  | accept i block =>
    simp only [step] at hstep
    split at hstep
    · cases hstep
    · rename_i hsocket
      obtain ⟨agent, hagent, rfl⟩ := Option.map_eq_some_iff.mp hstep
      simp only [Closing.Provider.step] at hagent
      split at hagent
      · rename_i hconn
        obtain rfl := Option.some.inj hagent
        apply Prod.Lex.left
        apply sum_lt (hmem i hsocket)
        · intro j hj
          simp [toArrive, outgoing, Function.update_of_ne hj]
        · simp [toArrive, outgoing, hconn]
      · cases hagent
  | actRead i tie n =>
    obtain ⟨agent, hagent, rfl⟩ := Option.map_eq_some_iff.mp hstep
    simp only [Closing.Provider.step] at hagent
    split at hagent
    · rename_i held ctx hconn
      obtain ⟨l, _, rfl⟩ := Option.map_eq_some_iff.mp hagent
      have hsocket : m.outgoing i ≠ [] := by
        intro hnil
        apply hmoves
        rw [hnil]
        simp
      have hless := sub_lt_of_take hmoves
      apply Prod.Lex.left
      apply sum_lt (hmem i hsocket)
      · intro j hj
        simp [toArrive, outgoing, Closing.Provider.put, Function.update_of_ne hj]
      · simpa [toArrive, outgoing, Closing.Provider.put, hconn] using hless
    · cases hagent
  | respond j flags payload =>
    simp only [step] at hstep
    split at hstep
    · cases hstep
    · rename_i idBytes body hframe
      simp only [Option.ite_none_left_eq_some, Option.some.injEq] at hstep
      obtain ⟨hnew, rfl⟩ := hstep
      apply Prod.Lex.right
      apply Prod.Lex.left
      apply Finset.card_lt_card
      refine ⟨Finset.sdiff_subset_sdiff (le_refl _) (by simp), ?_⟩
      intro hsub
      have hj : j ∈ m.toAnswer := by
        have hlt := (List.getElem?_eq_some_iff.mp hframe).1
        simp [toAnswer, hlt, hnew]
      simpa [toAnswer] using hsub hj
  | dubboRead tie n =>
    obtain ⟨agent, hagent, rfl⟩ := Option.map_eq_some_iff.mp hstep
    simp only [Closing.Provider.step, Option.ite_none_right_eq_some] at hagent
    obtain ⟨_, hagent⟩ := hagent
    obtain ⟨dubbo, hdubbo, rfl⟩ := Option.map_eq_some_iff.mp hagent
    obtain ⟨hsocket, _⟩ := DubboClient.complete_keeps hdubbo
    have hless := sub_lt_of_take hmoves
    apply Prod.Lex.right
    simp only [toAnswer, hsocket]
    apply Prod.Lex.right
    exact Prod.Lex.left _ _ hless
  | paRead i tie n =>
    simp only [step] at hstep
    split at hstep
    · cases hstep
    · rename_i k hk
      split at hstep
      · cases hstep
      · obtain ⟨k', hk', rfl⟩ := Option.map_eq_some_iff.mp hstep
        obtain ⟨_, hsocket, _⟩ := PaClient.complete_keeps hk'
        have hless := sub_lt_of_take hmoves
        have hout : ∀ j, outgoing { m.setClient i k' with
            returned := Function.update m.returned i (m.returned i +
              (((m.incoming i).drop (m.returned i)).take n).length) } j = m.outgoing j := by
          intro j
          by_cases hj : j = i
          · subst hj
            simp [outgoing, setClient, hk, hsocket]
          · simp [outgoing, setClient, Function.update_of_ne hj]
        have harrive : (fun j => toArrive { m.setClient i k' with
            returned := Function.update m.returned i (m.returned i +
              (((m.incoming i).drop (m.returned i)).take n).length) } j) = m.toArrive := by
          funext j
          simp only [toArrive, hout]
          rfl
        simp only [todo, harrive]
        apply Prod.Lex.right
        apply Prod.Lex.right
        apply Prod.Lex.right
        apply sum_lt (hF i k hk)
        · intro j hj
          simp [incoming, setClient, Function.update_of_ne hj]
        · simpa [incoming, setClient] using hless

end

/-! ## There is something to do -/

structure Up (m : Mesh ι γ χ) : Prop where
  dubbo : m.agent.dubbo.env.connected = true
  clients : ∀ i k, m.clients i = some k → k.env.connected = true

/-- No field is longer than a buffer. -/
structure Fits (cap : Nat) (m : Mesh ι γ χ) : Prop where
  header : 8 ≤ cap
  keys : ∀ i k, m.clients i = some k → k.env.key.width ≤ cap
  requests : ∀ i, ∀ call ∈ m.issued i, call.request.width ≤ cap

/-- Every body has an answer, and answers fit into the buffers and into frames. -/
structure Answers (serves : Bytes → Bytes → Prop) (cap : Nat) : Prop where
  total : ∀ body, ∃ payload, serves body payload
  fits : ∀ body payload, serves body payload → payload.length ≤ cap
  framed : ∀ body payload, serves body payload → 16 + payload.length < 2147483648

section
variable {serves : Bytes → Bytes → Prop} {S : Nat} {m : Mesh ι γ χ} {y : Routing.State ι}
variable (hS : 3 ≤ S) (hcap : toUInt32 S < 2147483648) (hm : Inv serves (toUInt32 S) m y)
variable (hup : Up m) (hfits : Fits (toUInt32 S) m) {i : ι} {k : Link PaReader (PaClient γ χ)}

theorem exists_next {e : Event ι γ χ} (he : Allowed serves m e) (hmoves : Moves m e)
    (hstep : (step S m e).isSome) : ∃ m', Next serves S m m' := by
  obtain ⟨m', hm'⟩ := Option.isSome_iff_exists.mp hstep
  exact ⟨m', e, he, hmoves, hm'⟩

omit [DecidableEq ι] in
theorem chunk_ne_nil {bs : Bytes} {p : Nat} (h : p < bs.length) : (bs.drop p).take 1 ≠ [] := by
  intro hnil
  have hlen := congrArg List.length hnil
  rw [List.length_take, List.length_drop, List.length_nil] at hlen
  omega

include hm hup in
theorem Inv.socket_eq (h : Reached serves S m) (hk : m.clients i = some k) :
    k.env.socket = paEncodeActKey k.env.key ++
      (((m.issued i).map ClientRuns.Call.request).map paActRequestEncode).flatten := by
  have hconnected := hup.clients i k hk
  have hsent : ClientRuns.Sent k.env.key ((m.issued i).map ClientRuns.Call.request) k.env :=
    (hm.clients i k hk).client.holds.sent
  obtain ⟨sent, hsplit, ⟨_, _, hoff⟩ | hsocket⟩ := hsent
  · rw [hoff] at hconnected
    cases hconnected
  · rw [drained_of_reached h hk hconnected, List.append_nil] at hsplit
    rw [hsplit]
    exact hsocket

include hm hup in
theorem Inv.frames_eq : requestFrames m.agent.dubbo.env.socket =
    (y.issued.map Routing.Call.request).map fun r => (writeLL r.id, dubboBody r) := by
  rw [hm.sent.socket_eq hup.dubbo]
  apply requestFrames_encode
  intro r hr
  obtain ⟨call, hcall, rfl⟩ := List.mem_map.mp hr
  exact hm.sized call hcall

include hS hcap hm hup hfits in
theorem Inv.next_act (h : Reached serves S m) (hk : m.clients i = some k)
    (hleft : m.agent.conns i = .unborn ∨ m.arrived i < k.env.socket.length) :
    ∃ m', Next serves S m m' := by
  have hsocket := hm.socket_eq hup h hk
  have hne : m.outgoing i ≠ [] := by
    rw [outgoing_eq hk, hsocket]
    simp [paEncodeActKey]
  cases hconn : m.agent.conns i with
  | unborn =>
    apply exists_next (e := .accept i Closing.emptyContext) ⟨trivial, trivial⟩ trivial
    simp only [step, if_neg hne, Closing.Provider.step, hconn]
    rfl
  | closed => exact absurd hconn (hm.clients i k hk).not_closed
  | live held ctx =>
    have hlt : m.arrived i < k.env.socket.length := by
      rcases hleft with hunborn | hlt
      · rw [hconn] at hunborn
        cases hunborn
      · exact hlt
    have hv := hm.clients i k hk
    obtain ⟨block, hok, hsettles⟩ : ∃ block, actWire.ok ctx ∧
        actWire.decoder.Settles (createPaContext block) (k.env.socket.take (m.arrived i))
          (fetched y i) ctx (unreadOf m.agent.store held) := by
      have hlive := hv.live held ctx hconn
      simpa only [view, hconn, heldOf] using hlive
    have hwithin : actWire.decoder.Within (toUInt32 S) (createPaContext block)
        (k.env.socket.take (m.arrived i) ++ k.env.socket.drop (m.arrived i)) := by
      rw [List.take_append_drop, hsocket]
      apply act_within hv.key _ block (hfits.keys i k hk)
      · intro r hr
        obtain ⟨call, hcall, rfl⟩ := List.mem_map.mp hr
        exact hfits.requests i call hcall
      · intro r hr
        obtain ⟨call, hcall, rfl⟩ := List.mem_map.mp hr
        exact (hv.requests call hcall).1
    have hgood : (m.agent.link held ctx).Good actWire (toUInt32 S) := by
      refine ⟨hm.pool.wf, ?_, hok⟩
      intro p hp
      exact hm.pool.holds i p (by simp only [hconn]; exact hp)
    have hC : (Closing.Provider.readCbs i).Implements actWire (Closing.PaEnv.dubboFetch i) :=
      paReadCbs_implements
    obtain ⟨r, hr, hone⟩ := Link.room_pos hC hS hgood (by have := hfits.header; omega) hsettles
      hwithin 0
    have hroom : ∀ r', (m.agent.link held ctx).room (Closing.Provider.readCbs i) S 0 = some r' →
        ((k.env.socket.drop (m.arrived i)).take 1).length ≤ r' := by
      intro r' hr'
      obtain rfl : r = r' := Option.some.inj (hr.symm.trans hr')
      exact (List.length_take_le 1 _).trans hone
    obtain ⟨l, _, hl, _⟩ := hm.act_complete hS hcap hk hconn hroom
    apply exists_next (e := .actRead i 0 1) ⟨trivial, trivial⟩
    · show ((m.outgoing i).drop (m.arrived i)).take 1 ≠ []
      rw [outgoing_eq hk]
      exact chunk_ne_nil hlt
    · simp only [step, Closing.Provider.step, hconn, outgoing_eq hk, hl]
      rfl

theorem exists_next_respond (hserves : Answers serves (toUInt32 S)) {j : Nat}
    (hj : j < (requestFrames m.agent.dubbo.env.socket).length) (hnew : j ∉ m.service.answered) :
    ∃ m', Next serves S m m' := by
  obtain ⟨⟨idBytes, body⟩, hframe⟩ : ∃ frame,
      (requestFrames m.agent.dubbo.env.socket)[j]? = some frame := ⟨_, List.getElem?_eq_getElem hj⟩
  obtain ⟨payload, hpayload⟩ := hserves.total body
  refine exists_next (e := .respond j (0, 0) payload)
    ⟨⟨hserves.framed _ _ hpayload, ?_⟩, trivial⟩ trivial ?_
  · intro idBytes' body' hframe'
    obtain ⟨rfl, rfl⟩ := Prod.mk.inj (Option.some.inj (hframe.symm.trans hframe'))
    exact hpayload
  · simp only [step, hframe, if_neg hnew]
    rfl

include hm in
theorem Inv.payload_le (hserves : Answers serves (toUInt32 S)) {r : Routing.Reply}
    (hr : r ∈ y.replies) : r.frame.payload.length ≤ toUInt32 S := by
  obtain ⟨_, call, hcall, _⟩ := hm.dubbo.replied r hr
  exact hserves.fits _ _ (hm.served r hr call hcall)

include hS hcap hm hup in
theorem Inv.next_dubbo (hserves : Answers serves (toUInt32 S)) (hheader : 8 ≤ toUInt32 S)
    (hlt : m.heard < m.service.sent.length) : ∃ m', Next serves S m m' := by
  obtain ⟨y', hread⟩ := hm.dubbo.next (dubboReadCbs_implements ι) hS hcap (by omega)
    (fun r => max 8 r.frame.payload.length) (fun s r hs hr => DubboFrame.Wf.width hr s hs)
    (fun r hr => Nat.max_le.mpr ⟨hheader, hm.payload_le hserves hr⟩) 0
  rw [Exchange.read, hm.link, hm.wire] at hread
  obtain ⟨dubbo, hdubbo, _⟩ := Option.map_eq_some_iff.mp hread
  apply exists_next (e := .dubboRead 0 1) ⟨trivial, trivial⟩ (chunk_ne_nil hlt)
  simp only [step, Closing.Provider.step, if_pos hup.dubbo, hdubbo]
  rfl

include hS hcap hm hup in
theorem Inv.next_pa (hserves : Answers serves (toUInt32 S)) (hheader : 8 ≤ toUInt32 S)
    (h : Reached serves S m) (hk : m.clients i = some k)
    (hlt : m.returned i < (m.incoming i).length) : ∃ m', Next serves S m m' := by
  have hwidth : ∀ r ∈ (view m y i k).exchange.replies,
      max 4 r.frame.payload.length ≤ toUInt32 S := by
    intro r hr
    obtain ⟨r₁, hr₁, rfl⟩ := List.mem_map.mp hr
    obtain ⟨r₀, hr₀, rfl⟩ := List.mem_map.mp (show r₁ ∈ sentAt y i from hr₁)
    have hle := hm.payload_le hserves
      ((Exchange.delivered_prefix _ y).subset (mem_ownedBy.mp hr₀).1)
    simp only [relay, DubboFrame.relayed, nulPadded_length]
    omega
  obtain ⟨x', hread⟩ := (hm.clients i k hk).client.next (paClientReadCbs_implements γ χ) hS hcap
    (by omega) (fun r => max 4 r.frame.payload.length)
    (fun s r hs hr => ActFrame.Wf.width hr s hs) hwidth 0
  obtain ⟨k', hk', _⟩ := Option.map_eq_some_iff.mp hread
  have hk' : k.complete (paClientReadCbs γ χ) S 0 (((m.incoming i).drop (m.returned i)).take 1) =
      some k' := hk'
  have hne : k.env.socket ≠ [] := by
    rw [hm.socket_eq hup h hk]
    simp [paEncodeActKey]
  apply exists_next (e := .paRead i 0 1) ⟨trivial, trivial⟩ (chunk_ne_nil hlt)
  simp only [step, hk, if_neg hne, hk']
  rfl

/-! ## Nothing is left to do -/

/-- All that was sent has been read, and the provider has answered all requests. -/
structure Done (m : Mesh ι γ χ) : Prop where
  arrived : ∀ i k, m.clients i = some k → k.env.socket.length ≤ m.arrived i
  answered : ∀ j < (requestFrames m.agent.dubbo.env.socket).length, j ∈ m.service.answered
  heard : m.service.sent.length ≤ m.heard
  returned : ∀ i k, m.clients i = some k → (m.incoming i).length ≤ m.returned i

include hS hcap hm hup hfits in
theorem Inv.done (hserves : Answers serves (toUInt32 S)) (h : Reached serves S m)
    (hstuck : ∀ m', ¬ Next serves S m m') : Done m := by
  constructor
  · intro i k hk
    by_contra hlt
    obtain ⟨m', hm'⟩ := hm.next_act hS hcap hup hfits h hk (Or.inr (Nat.lt_of_not_le hlt))
    exact hstuck m' hm'
  · intro j hj
    by_contra hnew
    obtain ⟨m', hm'⟩ := exists_next_respond hserves hj hnew
    exact hstuck m' hm'
  · by_contra hlt
    obtain ⟨m', hm'⟩ := hm.next_dubbo hS hcap hup hserves hfits.header (Nat.lt_of_not_le hlt)
    exact hstuck m' hm'
  · intro i k hk
    by_contra hlt
    obtain ⟨m', hm'⟩ := hm.next_pa hS hcap hup hserves hfits.header h hk (Nat.lt_of_not_le hlt)
    exact hstuck m' hm'

include hm hup in
theorem Inv.fetched_all (h : Reached serves S m) (hdone : Done m) (hk : m.clients i = some k) :
    (fetched y i).length = (m.issued i).length := by
  have hsocket := hm.socket_eq hup h hk
  have hlen := congrArg List.length hsocket
  rw [List.length_append] at hlen
  have harrived := hdone.arrived i k hk
  have hwhole : (view m y i k).whole = (m.issued i).map ClientRuns.Call.request := by
    apply Decoder.complete_all
    show _ ≤ m.arrived i - (paEncodeActKey k.env.key).length
    simp only [view, View.requests]
    omega
  have hfetched : fetched y i = (view m y i k).whole.map (·.under k.env.key) :=
    (hm.clients i k hk).fetched
  rw [hfetched, hwhole, List.length_map, List.length_map]

include hm hup in
/-- Every request of a connection has been answered by the provider and passed on. -/
theorem Inv.sent_all (hdone : Done m) {j : Nat} (hj : j < (fetched y i).length) :
    j ∈ (sentAt y i).map Routing.Reply.ticket := by
  have hdelivered : y.delivered (Routing.dialogue ι) = y.replies := by
    apply hm.dubbo.delivered_all
    rw [hm.wire]
    exact List.drop_eq_nil_of_le hdone.heard
  rw [fetched, List.length_map] at hj
  obtain ⟨t, ht, hcontext, hrank⟩ := exists_of_rank (List.getElem?_eq_getElem hj)
  have hlt : t < (requestFrames m.agent.dubbo.env.socket).length := by
    rw [hm.frames_eq hup, List.length_map, List.length_map]
    exact (List.getElem?_eq_some_iff.mp ht).1
  have hanswered := hdone.answered t hlt
  rw [← hm.answered] at hanswered
  obtain ⟨r, hr, rfl⟩ := List.mem_map.mp hanswered
  have hat : r ∈ deliveredAt y i := by
    apply mem_ownedBy.mpr
    rw [hdelivered]
    exact ⟨hr, contextOf_eq_some.mpr ⟨_, ht, hcontext⟩⟩
  rw [sentAt, List.map_map]
  exact List.mem_map.mpr ⟨r, hat, hrank⟩

include hm hup in
theorem Inv.delivered_all (h : Reached serves S m) (hdone : Done m) (hk : m.clients i = some k)
    {j : Nat} (hj : j < (m.issued i).length) :
    j ∈ ((view m y i k).exchange.delivered
      (ClientRuns.dialogue γ χ k.env.key)).map ClientRuns.Reply.ticket := by
  have hdelivered : (view m y i k).exchange.delivered (ClientRuns.dialogue γ χ k.env.key) =
      (sentAt y i).map relay := by
    apply (hm.clients i k hk).client.delivered_all
    exact List.drop_eq_nil_of_le (hdone.returned i k hk)
  rw [← hm.fetched_all hup h hdone hk] at hj
  have hsent := hm.sent_all hup hdone hj
  rw [hdelivered, List.map_map]
  exact hsent

end

/-- Every call has been called back, and no connection waits for anything. -/
structure Answered (serves : Bytes → Bytes → Prop) (m : Mesh ι γ χ) : Prop where
  all : ∃ r, Remote.Reached (Serves serves) r ∧ Shows m r ∧
    ∀ i, ∀ j < (r.issued i).length, j ∈ (r.answers i).map Prod.fst
  idle : ∀ i k id, m.clients i = some k → k.env.callbacks id = none ∧ k.env.contexts id = none

theorem Inv.all_answered {serves : Bytes → Bytes → Prop} {S : Nat} {m : Mesh ι γ χ}
    {y : Routing.State ι} (hm : Inv serves (toUInt32 S) m y)
    (hremote : Remote.Reached (Serves serves) (remote m y)) (hup : Up m)
    (h : Reached serves S m) (hdone : Done m) : Answered serves m := by
  refine ⟨⟨remote m y, hremote, hm.shows, ?_⟩, ?_⟩
  · intro i j hj
    cases hk : m.clients i with
    | none => simp [remote, calls, hk] at hj
    | some k =>
      have hj' : j < (m.issued i).length := by simpa [remote, calls, hk] using hj
      have hdelivered := hm.delivered_all hup h hdone hk hj'
      simp only [remote, hk, Option.elim_some, View.answers_tickets]
      exact hdelivered
  · intro i k id hk
    have hholds := (hm.clients i k hk).client.holds
    have hclosed : ¬ ∃ j call, (view m y i k).Open j call ∧ call.id = id := by
      intro hopen
      obtain ⟨j, call, ⟨hget, hwaits⟩, _⟩ := hopen
      exact hwaits (hm.delivered_all hup h hdone hk (List.getElem?_eq_some_iff.mp hget).1)
    constructor
    · apply Option.not_isSome_iff_eq_none.mp
      intro hsome
      exact hclosed ((hholds.callbacks.isSome_iff id).mp hsome)
    · apply Option.not_isSome_iff_eq_none.mp
      intro hsome
      exact hclosed ((hholds.contexts.isSome_iff id).mp hsome)

section
variable {serves : Bytes → Bytes → Prop} {S : Nat} {m m' : Mesh ι γ χ}

theorem Next.reached (hnext : Next serves S m m') (h : Reached serves S m) :
    Reached serves S m' := by
  obtain ⟨e, he, _, hstep⟩ := hnext
  exact h.tail ⟨e, he, hstep⟩

/-- The clients keep all that reading does not change. -/
theorem Next.client (hnext : Next serves S m m') {i : ι} {k' : Link PaReader (PaClient γ χ)}
    (hk' : m'.clients i = some k') : ∃ k, m.clients i = some k ∧ k'.env.key = k.env.key ∧
      k'.env.connected = k.env.connected := by
  obtain ⟨e, _, hmoves, hstep⟩ := hnext
  cases change_of_step hstep hk' with
  | create key henv => exact hmoves.elim
  | same _ hk => exact ⟨k', hk, rfl, rfl⟩
  | paConn status k hk henv => exact hmoves.elim
  | paKeyWritten status k hk henv => exact hmoves.elim
  | fetch call k hk henv => exact hmoves.elim
  | paRead tie n chunk k hk hread =>
    obtain ⟨hkey, _, hconnected⟩ := PaClient.complete_keeps hread
    exact ⟨k, hk, hkey, hconnected⟩

/-- No call is made. -/
theorem Next.calls_eq (hnext : Next serves S m m') :
    m'.calls = m.calls ∧ m'.issued = m.issued := by
  obtain ⟨e, _, hmoves, hstep⟩ := hnext
  cases e with
  | create i key => exact hmoves.elim
  | paConn i status => exact hmoves.elim
  | paKeyWritten i status => exact hmoves.elim
  | fetch i call => exact hmoves.elim
  | dubboConnect status => exact hmoves.elim
  | accept i block =>
    obtain ⟨_, hstep⟩ := exists_of_ite hstep
    obtain ⟨agent, _, rfl⟩ := Option.map_eq_some_iff.mp hstep
    exact ⟨rfl, rfl⟩
  | actRead i tie n =>
    obtain ⟨agent, _, rfl⟩ := Option.map_eq_some_iff.mp hstep
    exact ⟨rfl, rfl⟩
  | respond j flags payload =>
    simp only [step] at hstep
    split at hstep
    · cases hstep
    · obtain ⟨_, hstep⟩ := exists_of_ite hstep
      obtain rfl := Option.some.inj hstep
      exact ⟨rfl, rfl⟩
  | dubboRead tie n =>
    obtain ⟨agent, _, rfl⟩ := Option.map_eq_some_iff.mp hstep
    exact ⟨rfl, rfl⟩
  | paRead i tie n =>
    simp only [step] at hstep
    split at hstep
    · cases hstep
    · rename_i k hk
      obtain ⟨_, hstep⟩ := exists_of_ite hstep
      obtain ⟨k', hread, rfl⟩ := Option.map_eq_some_iff.mp hstep
      obtain ⟨hkey, _⟩ := PaClient.complete_keeps hread
      refine ⟨?_, rfl⟩
      funext j
      by_cases hj : j = i
      · subst hj
        simp [calls, setClient, hk, hkey]
      · simp [calls, setClient, Function.update_of_ne hj]

theorem handleQueue_connected {κ : Type} (client : DubboClient κ) :
    client.handleQueue.connected = client.connected := by
  unfold DubboClient.handleQueue
  split <;> rfl

theorem fetchAll_connected {κ : Type} (client : DubboClient κ) (calls : List (Routing.Call κ)) :
    (client.fetchAll calls).connected = client.connected := by
  induction calls generalizing client with
  | nil => rfl
  | cons call calls ih =>
    exact (ih _).trans (handleQueue_connected _)

/-- The Dubbo client stays connected. -/
theorem Next.dubbo (hnext : Next serves S m m') :
    m'.agent.dubbo.env.connected = m.agent.dubbo.env.connected := by
  obtain ⟨e, _, hmoves, hstep⟩ := hnext
  cases e with
  | create i key => exact hmoves.elim
  | paConn i status => exact hmoves.elim
  | paKeyWritten i status => exact hmoves.elim
  | fetch i call => exact hmoves.elim
  | dubboConnect status => exact hmoves.elim
  | accept i block =>
    obtain ⟨_, hstep⟩ := exists_of_ite hstep
    obtain ⟨agent, hagent, rfl⟩ := Option.map_eq_some_iff.mp hstep
    simp only [Closing.Provider.step] at hagent
    split at hagent
    · obtain rfl := Option.some.inj hagent
      rfl
    · cases hagent
  | actRead i tie n =>
    obtain ⟨agent, hagent, rfl⟩ := Option.map_eq_some_iff.mp hstep
    simp only [Closing.Provider.step] at hagent
    split at hagent
    · obtain ⟨l, hl, rfl⟩ := Option.map_eq_some_iff.mp hagent
      refine Link.complete_keeps (C := Closing.Provider.readCbs i) paReadCbs_implements
        (P := fun e => e.dubboClient.connected = m.agent.dubbo.env.connected) ?_ rfl hl
      intro e request e' he hfetch
      obtain rfl := Option.some.inj hfetch
      exact (fetchAll_connected e.dubboClient [⟨i, request⟩]).trans he
    · cases hagent
  | respond j flags payload =>
    simp only [step] at hstep
    split at hstep
    · cases hstep
    · obtain ⟨_, hstep⟩ := exists_of_ite hstep
      obtain rfl := Option.some.inj hstep
      rfl
  | dubboRead tie n =>
    obtain ⟨agent, hagent, rfl⟩ := Option.map_eq_some_iff.mp hstep
    simp only [Closing.Provider.step, Option.ite_none_right_eq_some] at hagent
    obtain ⟨_, hagent⟩ := hagent
    obtain ⟨dubbo, hdubbo, rfl⟩ := Option.map_eq_some_iff.mp hagent
    exact (DubboClient.complete_keeps hdubbo).2
  | paRead i tie n =>
    simp only [step] at hstep
    split at hstep
    · cases hstep
    · obtain ⟨_, hstep⟩ := exists_of_ite hstep
      obtain ⟨k', _, rfl⟩ := Option.map_eq_some_iff.mp hstep
      rfl

theorem Next.up (hnext : Next serves S m m') (hup : Up m) : Up m' := by
  refine ⟨hnext.dubbo.trans hup.dubbo, ?_⟩
  intro i k' hk'
  obtain ⟨k, hk, _, hconnected⟩ := hnext.client hk'
  exact hconnected.trans (hup.clients i k hk)

theorem Next.fits {cap : Nat} (hnext : Next serves S m m') (hfits : Fits cap m) : Fits cap m' := by
  refine ⟨hfits.header, ?_, ?_⟩
  · intro i k' hk'
    obtain ⟨k, hk, hkey, _⟩ := hnext.client hk'
    rw [hkey]
    exact hfits.keys i k hk
  · rw [hnext.calls_eq.2]
    exact hfits.requests

theorem acc_of_support {F : Finset ι} (hF : ∀ i k, m.clients i = some k → i ∈ F) :
    Acc (fun m' m => Next serves S m m') m := by
  induction hn : todo F m using less_wf.induction generalizing m with
  | _ n ih =>
    constructor
    intro m' hnext
    refine ih (todo F m') ?_ ?_ rfl
    · rw [← hn]
      exact todo_lt hF hnext
    · intro i k' hk'
      obtain ⟨k, hk, _⟩ := hnext.client hk'
      exact hF i k hk

/-- With all connections up and nothing that is too long for a buffer, whatever happens and in
whichever order: without new calls it comes to an end, and then every call has been called back. -/
theorem answered_of_reached (hS : 3 ≤ S) (hcap : toUInt32 S < 2147483648)
    (hserves : Answers serves (toUInt32 S)) (h : Reached serves S m) (hup : Up m)
    (hfits : Fits (toUInt32 S) m) :
    Acc (fun m' m => Next serves S m m') m ∧
      ∀ m', Relation.ReflTransGen (Next serves S) m m' → (∀ m'', ¬ Next serves S m' m'') →
        m'.calls = m.calls ∧ Answered serves m' := by
  obtain ⟨F, hF⟩ := exists_support h
  refine ⟨acc_of_support hF, ?_⟩
  intro m' hrun hstuck
  have hall : Reached serves S m' ∧ Up m' ∧ Fits (toUInt32 S) m' ∧ m'.calls = m.calls := by
    clear hstuck
    induction hrun with
    | refl => exact ⟨h, hup, hfits, rfl⟩
    | tail _ hnext ih =>
      obtain ⟨hreached, hup, hfits, hcalls⟩ := ih
      exact ⟨hnext.reached hreached, hnext.up hup, hnext.fits hfits,
        hnext.calls_eq.1.trans hcalls⟩
  obtain ⟨hreached, hup', hfits', hcalls⟩ := hall
  obtain ⟨y, hm, hremote⟩ := exists_inv_of_reached hS hcap hreached
  have hdone := hm.done hS hcap hup' hfits' hserves hreached hstuck
  exact ⟨hcalls, hm.all_answered hremote hup' hreached hdone⟩

end

/-- Both connections are up and both calls are on their way. -/
theorem answered_of_reached_two_connections :
    ∃ m : Mesh Bool Nat Nat, (∀ i, (m.issued i).length = 1) ∧
      Acc (fun m' m => Next (answering bodyLength) 65536 m m') m ∧
      ∀ m', Relation.ReflTransGen (Next (answering bodyLength) 65536) m m' →
        (∀ m'', ¬ Next (answering bodyLength) 65536 m' m'') →
          m'.calls = m.calls ∧ Answered (answering bodyLength) m' := by
  have hrun : ((twoCalls 1 2).foldlM
      (fun m e => if checkAllowed bodyLength m e then step 65536 m e else none)
      (start Bool Nat Nat)).map
        (fun m => (m.agent.dubbo.env.connected, fun i => ((m.issued i).map fun call =>
          call.request.width, (m.clients i).map fun k => (k.env.connected, k.env.key.width)))) =
      some (true, fun i => ([4], some (true, 4))) := by decide +kernel
  obtain ⟨m, hreached, hm⟩ := Runs.exists_of_foldlM (fun _ _ _ => allowed_of_check) hrun
  obtain ⟨hdubbo, hat⟩ := Prod.mk.inj hm
  have hissued : ∀ i, (m.issued i).map (fun call => call.request.width) = [4] :=
    fun i => congrArg Prod.fst (congrFun hat i)
  have hclients : ∀ i k, m.clients i = some k → k.env.connected = true ∧ k.env.key.width = 4 := by
    intro i k hk
    have h := congrArg Prod.snd (congrFun hat i)
    simp only [hk, Option.map_some, Option.some.injEq] at h
    exact Prod.mk.inj h
  have hcap : toUInt32 (65536 : Nat) = 65536 := toUInt32_of_lt (by omega)
  have hserves : Answers (answering bodyLength) (toUInt32 (65536 : Nat)) := by
    refine ⟨fun body => ⟨bodyLength body, rfl⟩, ?_, ?_⟩
    · rintro body _ rfl
      rw [hcap, bodyLength, List.length_singleton]
      omega
    · rintro body _ rfl
      rw [bodyLength, List.length_singleton]
      omega
  refine ⟨m, ?_, answered_of_reached (by decide) (by omega) hserves hreached ⟨hdubbo, ?_⟩
    ⟨by omega, ?_, ?_⟩⟩
  · intro i
    have hlen := congrArg List.length (hissued i)
    rw [List.length_map] at hlen
    exact hlen
  · exact fun i k hk => (hclients i k hk).1
  · intro i k hk
    rw [(hclients i k hk).2, hcap]
    decide
  · intro i call hcall
    have hwidth : call.request.width ∈ [4] := by
      rw [← hissued i]
      exact List.mem_map_of_mem hcall
    rw [List.mem_singleton.mp hwidth, hcap]
    decide

end Mesh
end PyAgent
