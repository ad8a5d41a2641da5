import PyAgent.Receive
import PyAgent.Streaming.Ledger

/-!
# Requests and their responses

The client side of a connection on which requests are answered in any order: the
responses form a stream of frames, each of them carrying the id of the request it
answers, and a read callback finds the request by that id. `Dialogue` says what one
response does; `Exchange.Inv` then holds whatever the peer sends and however its
bytes arrive.
-/

namespace PyAgent
set_option autoImplicit false

open Streaming

/-- A hook that forgets each key it has handled, and knows no others, gets through a list exactly
when the keys of the list are different and all known. -/
theorem foldlM_isSome_iff {κ ω ι : Type} {hook : κ → ω → Option κ} (key : ω → ι)
    {known : κ → ι → Prop} (hnone : ∀ k o, ¬ known k (key o) → hook k o = none)
    (hsome : ∀ k o, known k (key o) →
      ∃ k', hook k o = some k' ∧ ∀ i, known k' i ↔ i ≠ key o ∧ known k i)
    (k : κ) (os : List ω) : (∃ k', os.foldlM hook k = some k') ↔
      (os.map key).Nodup ∧ ∀ o ∈ os, known k (key o) := by
  induction os generalizing k with
  | nil => exact iff_of_true ⟨k, rfl⟩ ⟨List.nodup_nil, by simp⟩
  | cons o os ih =>
    rw [List.foldlM_cons, List.map_cons, List.nodup_cons, List.forall_mem_cons]
    by_cases hknown : known k (key o)
    · obtain ⟨k₁, hk₁, hknows⟩ := hsome k o hknown
      rw [hk₁, Option.bind_eq_bind, Option.bind_some, ih k₁]
      simp only [hknows]
      constructor
      · intro h
        obtain ⟨hnodup, hall⟩ := h
        refine ⟨⟨?_, hnodup⟩, hknown, fun o' ho' => (hall o' ho').2⟩
        intro hmem
        obtain ⟨o', ho', heq⟩ := List.mem_map.mp hmem
        exact (hall o' ho').1 heq
      · intro h
        obtain ⟨⟨hfresh, hnodup⟩, _, hall⟩ := h
        refine ⟨hnodup, fun o' ho' => ⟨?_, hall o' ho'⟩⟩
        intro heq
        apply hfresh
        rw [← heq]
        exact List.mem_map_of_mem ho'
    · rw [hnone k o hknown]
      refine iff_of_false ?_ (fun h => hknown h.2.1)
      intro h
      obtain ⟨_, h⟩ := h
      cases h

/-- The connection, the bytes the peer has sent that are still to be read and those that have been,
the requests made and the responses sent so far. -/
structure Exchange (σ κ ε ρ : Type) where
  link : Link σ κ
  wire : Bytes
  received : Bytes
  issued : List ε
  replies : List ρ

section
variable {τ σ ω κ ε ρ : Type} [DecidableEq τ]

/-- How responses are framed, which request a response answers, and what the callbacks know
(`holds`) of the requests and of the responses delivered. -/
structure Dialogue (W : Wire τ σ ω) (hook : κ → ω → Option κ) (ε ρ : Type) where
  framing : W.decoder.Framing ρ
  start : σ
  start_between : framing.between start
  ticket : ρ → Nat
  answers : ε → ρ → Prop
  holds : Ledger ε → List ρ → κ → Prop
  serve : ∀ l ds k r e, holds l ds k → l.Open (ticket r) e → answers e r → framing.good r →
    ∃ k', hook k (framing.out r) = some k' ∧ holds (l.serve (ticket r)) (ds ++ [r]) k'

namespace Exchange
variable {W : Wire τ σ ω} {hook : κ → ω → Option κ} (P : Dialogue W hook ε ρ)

def read (C : ReadCbs σ κ) (S tie n : Nat) (x : Exchange σ κ ε ρ) : Option (Exchange σ κ ε ρ) :=
  (x.link.complete C S tie (x.wire.take n)).map fun link =>
    { x with link := link, wire := x.wire.drop n, received := x.received ++ x.wire.take n }

def reply (enc : ρ → Bytes) (r : ρ) (x : Exchange σ κ ε ρ) : Exchange σ κ ε ρ :=
  { x with wire := x.wire ++ enc r, replies := x.replies ++ [r] }

def delivered (x : Exchange σ κ ε ρ) : List ρ :=
  Decoder.complete P.framing.enc x.replies x.received.length

def ledger (x : Exchange σ κ ε ρ) : Ledger ε := ⟨x.issued, (x.delivered P).map P.ticket⟩

structure Inv (cap : Nat) (x : Exchange σ κ ε ρ) : Prop where
  good : x.link.Good W cap
  stream : x.received ++ x.wire = (x.replies.map P.framing.enc).flatten
  replied : ∀ r ∈ x.replies, P.framing.good r ∧
    ∃ e, x.issued[P.ticket r]? = some e ∧ P.answers e r
  once : (x.replies.map P.ticket).Nodup
  settled : W.decoder.Settles P.start x.received ((x.delivered P).map P.framing.out) x.link.ctx
    x.link.unread
  holds : P.holds (x.ledger P) (x.delivered P) x.link.env

variable {P} {cap : Nat} {x : Exchange σ κ ε ρ}

theorem Inv.serve_all (hx : x.Inv P cap) {more ds : List ρ} (hsub : ds ++ more <+: x.replies)
    {k : κ} (hk : P.holds ⟨x.issued, ds.map P.ticket⟩ ds k) :
    ∃ k', (more.map P.framing.out).foldlM hook k = some k' ∧
      P.holds ⟨x.issued, (ds ++ more).map P.ticket⟩ (ds ++ more) k' := by
  induction more generalizing ds k with
  | nil => exact ⟨k, rfl, by simpa using hk⟩
  | cons r more ih =>
    obtain ⟨hgood, e, he, hanswers⟩ := hx.replied r (hsub.subset (by simp))
    have hfresh : P.ticket r ∉ ds.map P.ticket := by
      have hnodup := hx.once.sublist (hsub.sublist.map P.ticket)
      rw [List.map_append, List.nodup_append] at hnodup
      intro hmem
      exact hnodup.2.2 _ hmem _ (by simp) rfl
    obtain ⟨k₁, hk₁, hholds⟩ := P.serve _ ds k r e hk ⟨he, hfresh⟩ hanswers hgood
    have hds : (ds ++ [r]) ++ more = ds ++ r :: more := by simp
    have hsub' : (ds ++ [r]) ++ more <+: x.replies := by
      rw [hds]
      exact hsub
    have hholds₁ : P.holds ⟨x.issued, (ds ++ [r]).map P.ticket⟩ (ds ++ [r]) k₁ := by
      rw [List.map_append]
      exact hholds
    obtain ⟨k', hk', hholds'⟩ := ih hsub' hholds₁
    rw [hds] at hholds'
    refine ⟨k', ?_, hholds'⟩
    rw [List.map_cons, List.foldlM_cons, hk₁]
    exact hk'

variable {C : ReadCbs σ κ} {S : Nat}

/-- A read of any size delivers the responses it completes and comes back. -/
theorem Inv.read (hC : C.Implements W hook) (hS : 3 ≤ S) (hcap : toUInt32 S < 2147483648)
    (hx : x.Inv P (toUInt32 S)) {tie n : Nat}
    (hroom : ∀ m, x.link.room C S tie = some m → (x.wire.take n).length ≤ m) :
    ∃ x', x.read C S tie n = some x' ∧ x'.Inv P (toUInt32 S) := by
  let chunk := x.wire.take n
  have hstarts : x.received ++ chunk <+: (x.replies.map P.framing.enc).flatten := by
    rw [← hx.stream]
    exact (List.prefix_append_right_inj _).mpr (List.take_prefix n x.wire)
  obtain ⟨s', us', hs'⟩ := P.framing.settle (fun r hr => (hx.replied r hr).1) P.start_between
    hstarts
  obtain ⟨more, hmore⟩ : x.delivered P <+:
      Decoder.complete P.framing.enc x.replies (x.received ++ chunk).length :=
    Decoder.complete_mono _ _ (by simp)
  rw [← hmore, List.map_append] at hs'
  obtain ⟨os, hos, hafter⟩ := hs'.after (hx.settled.1.append chunk)
  obtain rfl : more.map P.framing.out = os := List.append_cancel_left hos
  have hsub : x.delivered P ++ more <+: x.replies := by
    rw [hmore]
    exact Decoder.complete_isPrefix _ _ _
  obtain ⟨k', hk', hholds⟩ := hx.serve_all hsub hx.holds
  obtain ⟨link, hlink, hgood, rfl, rfl, rfl⟩ := Link.complete_spec hC hS hx.good tie chunk
    (fun m hm => by
      have hfit : chunk.length ≤ m := hroom m hm
      exact ⟨hfit, by omega⟩) hx.settled.2 hafter hk'
  have hread : x.read C S tie n = some { x with
      link := link, wire := x.wire.drop n, received := x.received ++ chunk } := by
    rw [Exchange.read, hlink]
    rfl
  refine ⟨_, hread, hgood, ?_, hx.replied, hx.once, ?_, ?_⟩
  · rw [← hx.stream, List.append_assoc, List.take_append_drop]
  · rw [← List.map_append, hmore] at hs'
    exact hs'
  · rw [hmore] at hholds
    exact hholds

theorem Inv.reply (hx : x.Inv P cap) {r : ρ} (hgood : P.framing.good r) {e : ε}
    (he : x.issued[P.ticket r]? = some e) (hanswers : P.answers e r)
    (honce : P.ticket r ∉ x.replies.map P.ticket) : (x.reply P.framing.enc r).Inv P cap := by
  have hdelivered : (x.reply P.framing.enc r).delivered P = x.delivered P := by
    refine Decoder.complete_append _ ?_ P.framing.enc_pos
    rw [← hx.stream, List.length_append]
    exact Nat.le_add_right _ _
  refine ⟨hx.good, ?_, ?_, ?_, ?_, ?_⟩
  · simp only [Exchange.reply, List.map_append, List.flatten_append, ← List.append_assoc, hx.stream]
    simp
  · intro r' hr'
    rcases List.mem_append.mp hr' with hr' | hr'
    · exact hx.replied r' hr'
    · rw [List.mem_singleton.mp hr']
      exact ⟨hgood, e, he, hanswers⟩
  · simp only [Exchange.reply, List.map_append, List.map_cons, List.map_nil]
    exact List.nodup_append.mpr ⟨hx.once, by simp, by
      intro i hi j hj hij
      rw [List.mem_singleton.mp hj] at hij
      exact honce (hij ▸ hi)⟩
  · rw [hdelivered]
    exact hx.settled
  · rw [ledger, hdelivered]
    exact hx.holds

/-- Requests and everything else but reads and responses: the connection itself stays as it is. -/
theorem Inv.update (hx : x.Inv P cap) {es : List ε} {k : κ}
    (hk : P.holds ⟨x.issued ++ es, (x.delivered P).map P.ticket⟩ (x.delivered P) k) :
    Inv P cap { x with link := { x.link with env := k }, issued := x.issued ++ es } := by
  refine ⟨⟨hx.good.wf, hx.good.holds, hx.good.ok⟩, hx.stream, ?_, hx.once, hx.settled, hk⟩
  intro r hr
  obtain ⟨hgood, e, he, hanswers⟩ := hx.replied r hr
  obtain ⟨hlt, _⟩ := List.getElem?_eq_some_iff.mp he
  exact ⟨hgood, e, (List.getElem?_append_left hlt).trans he, hanswers⟩

theorem Inv.setEnv (hx : x.Inv P cap) {k : κ}
    (hk : P.holds (x.ledger P) (x.delivered P) k) :
    Inv P cap { x with link := { x.link with env := k } } :=
  ⟨⟨hx.good.wf, hx.good.holds, hx.good.ok⟩, hx.stream, hx.replied, hx.once, hx.settled, hk⟩

theorem Inv.of_read (hC : C.Implements W hook) (hS : 3 ≤ S) (hcap : toUInt32 S < 2147483648)
    (hx : x.Inv P (toUInt32 S)) {tie n : Nat} {x' : Exchange σ κ ε ρ}
    (hread : x.read C S tie n = some x') : x'.Inv P (toUInt32 S) := by
  obtain ⟨link, hlink, _⟩ := Option.map_eq_some_iff.mp hread
  obtain ⟨x'', hread', hinv⟩ := hx.read hC hS hcap (fun m hm => Link.fits_of_complete C S hlink hm)
  obtain rfl : x' = x'' := Option.some.inj (hread.symm.trans hread')
  exact hinv

end Exchange
end
end PyAgent
