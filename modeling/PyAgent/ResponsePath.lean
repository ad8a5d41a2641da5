import PyAgent.DubboClient
import PyAgent.PaClient

/-!
# The response path

A provider's frame passes two decoders and an encoder on its way to the consumer
agent: `_d_read_cb`, `encode_act_response` and `_pa_read_cb`. Both decoders see
their bytes in pieces of any size.
-/

namespace PyAgent
set_option autoImplicit false

open Streaming

/-- Outputs with different keys are handled one after the other when all of them are known, each
leaving one entry in the log. -/
theorem foldlM_known {κ ω ρ ι : Type} (hook : κ → ω → Option κ) (log : κ → List ρ)
    (entry : ω → ρ) (key : ω → ι) (known : κ → ι → Prop)
    (hserve : ∀ k o, known k (key o) → ∃ k', hook k o = some k' ∧ log k' = log k ++ [entry o] ∧
      ∀ i, i ≠ key o → known k i → known k' i)
    {os : List ω} (hnodup : (os.map key).Nodup) {k : κ} (hknown : ∀ o ∈ os, known k (key o)) :
    ∃ k', os.foldlM hook k = some k' ∧ log k' = log k ++ os.map entry := by
  induction os generalizing k with
  | nil => exact ⟨k, rfl, by simp⟩
  | cons o os ih =>
    rw [List.map_cons, List.nodup_cons] at hnodup
    obtain ⟨k₁, hk₁, hlog₁, hkeep⟩ := hserve k o (hknown o List.mem_cons_self)
    have hknown₁ : ∀ o' ∈ os, known k₁ (key o') := by
      intro o' ho'
      apply hkeep
      · intro heq
        apply hnodup.1
        rw [← heq]
        exact List.mem_map_of_mem ho'
      · exact hknown o' (List.mem_cons_of_mem o ho')
    obtain ⟨k', hk', hlog'⟩ := ih hnodup.2 hknown₁
    refine ⟨k', ?_, ?_⟩
    · rw [List.foldlM_cons, hk₁]
      exact hk'
    · rw [hlog', hlog₁, List.map_cons, List.append_assoc, List.singleton_append]

/-! ## Registered ids -/

def DubboClient.Registered {χ : Type} (client : DubboClient χ) (context : χ) (id : Int) : Prop :=
  client.cbs id = some .dubboCallback ∧ client.contexts id = some context

def PaClient.Registered {γ χ : Type} (client : PaClient γ χ) (id : Int) : Prop :=
  (client.callbacks id).isSome ∧ (client.contexts id).isSome

section
variable {χ : Type} {client : DubboClient χ} {context : χ}

theorem DubboClient.registered_fetch (client : DubboClient χ) (request : DubboRequest)
    (context : χ) :
    (client.dubboFetch request .dubboCallback context).Registered context request.id := by
  simp [Registered, dubboFetch]

theorem DubboClient.Registered.fetch {id : Int} (h : client.Registered context id)
    (request : DubboRequest) :
    (client.dubboFetch request .dubboCallback context).Registered context id := by
  by_cases hid : id = request.id
  · rw [hid]
    exact client.registered_fetch request context
  · simp only [Registered, dubboFetch, handleQueue_cbs, handleQueue_contexts]
    rw [Function.update_of_ne hid, Function.update_of_ne hid]
    exact h

theorem DubboClient.Registered.answer {resp : DubboResponse}
    (h : client.Registered context resp.id) :
    ∃ client', client.answer resp = some client' ∧
      client'.channels = client.channels ++ [dubboCallback resp context] ∧
      ∀ id, id ≠ resp.id → client.Registered context id → client'.Registered context id := by
  refine ⟨_, answer_of_some h.1 h.2, rfl, ?_⟩
  intro id hne hid
  simp only [Registered]
  rw [Function.update_of_ne hne, Function.update_of_ne hne]
  exact hid

end

section
variable {γ χ : Type} {client : PaClient γ χ}

theorem PaClient.registered_fetch (client : PaClient γ χ) (req : ActRequest) (cb : γ)
    (context : χ) : (client.fetch req cb context).Registered req.id := by
  simp [Registered, PaClient.fetch]

theorem PaClient.Registered.fetch {id : Int} (h : client.Registered id) (req : ActRequest)
    (cb : γ) (context : χ) : (client.fetch req cb context).Registered id := by
  by_cases hid : id = req.id
  · rw [hid]
    exact client.registered_fetch req cb context
  · simp only [Registered, PaClient.fetch, handleQueue_callbacks, handleQueue_contexts]
    rw [Function.update_of_ne hid, Function.update_of_ne hid]
    exact h

theorem PaClient.Registered.answer {resp : ActResponse} (h : client.Registered resp.id) :
    ∃ client', client.answer resp = some client' ∧
      client'.calls.map (fun call => call.2.1) =
        client.calls.map (fun call => call.2.1) ++ [resp] ∧
      ∀ id, id ≠ resp.id → client.Registered id → client'.Registered id := by
  obtain ⟨cb, hcb⟩ := Option.isSome_iff_exists.mp h.1
  obtain ⟨context, hcontext⟩ := Option.isSome_iff_exists.mp h.2
  refine ⟨_, answer_of_some hcb hcontext, by simp, ?_⟩
  intro id hne hid
  simp only [Registered]
  rw [Function.update_of_ne hne, Function.update_of_ne hne]
  exact hid

end

/-! ## A frame between the two connections -/

namespace DubboFrame

def actEncode (f : DubboFrame) : Bytes := encodeActResponse (actResponseFromDubbo f.response)

/-- What the consumer agent's callback is to get: the same id and length, and the payload up to its
first NUL byte. -/
def answered (f : DubboFrame) : ActResponse := ⟨f.id, f.payload.length, nulPadded f.payload⟩

def relayed (f : DubboFrame) : ActFrame := ⟨f.id, nulPadded f.payload⟩

variable {f : DubboFrame}

theorem Wf.actEncode_eq (hf : f.Wf) : f.actEncode = f.relayed.encode := by
  have hid : toInt32 f.id = f.id := by
    have := hf.id_nonneg
    have := hf.id_lt
    apply toInt32_of_isInt32
    exact ⟨by omega, by omega⟩
  have hcopy : strncpy (nulPadded f.payload) f.payload.length = nulPadded f.payload := by
    have h := nulPadded_nulPadded f.payload
    rw [nulPadded, nulPadded_length] at h
    exact h
  simp only [DubboFrame.actEncode, encodeActResponse, actResponseFromDubbo, response, relayed,
    ActFrame.encode, hid, Int.toNat_natCast, hcopy, nulPadded_length]

theorem relayed_response (f : DubboFrame) : f.relayed.response = f.answered := by
  simp only [ActFrame.response, relayed, answered, nulPadded_length, nulPadded_nulPadded]

theorem Wf.actEncode_length (hf : f.Wf) : f.actEncode.length = 8 + f.payload.length := by
  rw [hf.actEncode_eq, ActFrame.encode_length, relayed, nulPadded_length]

theorem Wf.relayed (hf : f.Wf) : f.relayed.Wf := by
  have hlength := hf.length_lt
  have hact := hf.actEncode_length
  have h0 := hf.id_nonneg
  rw [DubboFrame.encode_length] at hlength
  rw [hf.actEncode_eq] at hact
  have hid : IsInt32 f.id := ⟨by omega, hf.id_lt⟩
  exact ⟨hid, by omega⟩

end DubboFrame

def actFraming : paWire.decoder.Framing DubboFrame where
  enc := DubboFrame.actEncode
  out := DubboFrame.answered
  good := DubboFrame.Wf
  between := paFraming.between
  enc_pos f := encodeActResponse_pos _
  need_pos := paFraming.need_pos
  piece c f hc hf := by
    rw [hf.actEncode_eq, ← f.relayed_response]
    exact PaReader.piece hc hf.relayed

/-! ## Both hops -/

/-- Frames a provider sends to a Dubbo client, in answer to requests of one connection whose other
end waits for all of them. -/
structure Responses (χ γ ξ : Type) where
  frames : List DubboFrame
  context : χ
  dubbo : Link DubboReader (DubboClient χ)
  pa : Link PaReader (PaClient γ ξ)
  wf : ∀ f ∈ frames, f.Wf
  distinct : (frames.map DubboFrame.id).Nodup
  registered : ∀ f ∈ frames, dubbo.env.Registered context f.id
  awaited : ∀ f ∈ frames, pa.env.Registered f.id
  dubbo_start : dubbo.store = ⟨[], []⟩ ∧ dubbo.held = none ∧ dubbo.ctx.readState = .magic ∧
    dubbo.env.channels = []
  pa_start : pa.store = ⟨[], []⟩ ∧ pa.held = none ∧ pa.ctx.readState = .id ∧ pa.env.calls = []

namespace Responses
variable {χ γ ξ : Type} (R : Responses χ γ ξ) {S : Nat}

def written (k : Link DubboReader (DubboClient χ)) : Bytes :=
  (k.env.channels.map Prod.snd).flatten

theorem dubbo_good (cap : Nat) : R.dubbo.Good dubboWire cap := by
  obtain ⟨hstore, hheld, hstate, _⟩ := R.dubbo_start
  refine ⟨?_, by simp [hheld], ⟨dubboMagic, by simp [dubboWire, dubboFields], hstate⟩⟩
  rw [hstore]
  exact BufStore.wf_empty cap

theorem pa_good (cap : Nat) : R.pa.Good paWire cap := by
  obtain ⟨hstore, hheld, hstate, _⟩ := R.pa_start
  refine ⟨?_, by simp [hheld], ⟨lenField .id PaReader.gotId, by simp [paWire, paFields], hstate⟩⟩
  rw [hstore]
  exact BufStore.wf_empty cap

theorem dubbo_unread : R.dubbo.unread = [] := by
  simp [Link.unread, unreadOf, R.dubbo_start]

theorem pa_unread : R.pa.unread = [] := by
  simp [Link.unread, unreadOf, R.pa_start]

theorem dubbo_handles {fs : List DubboFrame} (hfs : fs <+: R.frames) :
    ∃ client, (fs.map DubboFrame.response).foldlM DubboClient.answer R.dubbo.env = some client ∧
      client.channels = fs.map fun f => (R.context, f.actEncode) := by
  have hnodup : ((fs.map DubboFrame.response).map DubboResponse.id).Nodup := by
    rw [List.map_map]
    exact R.distinct.sublist (hfs.sublist.map DubboFrame.id)
  have hknown : ∀ o ∈ fs.map DubboFrame.response, R.dubbo.env.Registered R.context o.id := by
    intro o ho
    obtain ⟨f, hf, rfl⟩ := List.mem_map.mp ho
    exact R.registered f (hfs.subset hf)
  obtain ⟨client, hclient, hchannels⟩ := foldlM_known DubboClient.answer DubboClient.channels
    (fun resp => dubboCallback resp R.context) DubboResponse.id
    (fun client => client.Registered R.context) (fun _ _ h => h.answer) hnodup hknown
  refine ⟨client, hclient, ?_⟩
  rw [hchannels, R.dubbo_start.2.2.2, List.nil_append, List.map_map]
  rfl

theorem pa_handles {fs : List DubboFrame} (hfs : fs <+: R.frames) :
    ∃ client, (fs.map DubboFrame.answered).foldlM PaClient.answer R.pa.env = some client ∧
      client.calls.map (fun call => call.2.1) = fs.map DubboFrame.answered := by
  have hnodup : ((fs.map DubboFrame.answered).map ActResponse.id).Nodup := by
    rw [List.map_map]
    exact R.distinct.sublist (hfs.sublist.map DubboFrame.id)
  have hknown : ∀ o ∈ fs.map DubboFrame.answered, R.pa.env.Registered o.id := by
    intro o ho
    obtain ⟨f, hf, rfl⟩ := List.mem_map.mp ho
    exact R.awaited f (hfs.subset hf)
  obtain ⟨client, hclient, hcalls⟩ := foldlM_known PaClient.answer
    (fun client => client.calls.map fun call => call.2.1) (fun resp => resp) ActResponse.id
    PaClient.Registered (fun _ _ h => h.answer) hnodup hknown
  refine ⟨client, hclient, ?_⟩
  rw [hcalls, R.pa_start.2.2.2]
  simp

variable (hS : 3 ≤ S) (hcap : toUInt32 S < 2147483648)
include hS hcap

theorem dubbo_hop {es : List (Nat × Bytes)} (hfits : R.dubbo.fits (dubboReadCbs χ) S es = true)
    (hstream : (es.map Prod.snd).flatten <+: (R.frames.map DubboFrame.encode).flatten) :
    ∃ k, R.dubbo.run (dubboReadCbs χ) S es = some k ∧
      k.env.channels = (Decoder.complete DubboFrame.encode R.frames
        (es.map Prod.snd).flatten.length).map fun f => (R.context, f.actEncode) := by
  obtain ⟨k, hrun, henv⟩ := Link.run_frames (dubboReadCbs_implements χ) hS hcap dubboFraming R.wf
    (R.dubbo_good _) R.dubbo_start.2.2.1 R.dubbo_unread hfits hstream
    (fun fs hfs => (R.dubbo_handles hfs).imp fun _ h => h.1)
  obtain ⟨client, hclient, hchannels⟩ := R.dubbo_handles
    (Decoder.complete_isPrefix DubboFrame.encode R.frames (es.map Prod.snd).flatten.length)
  obtain rfl : k.env = client := Option.some.inj (henv.symm.trans hclient)
  exact ⟨k, hrun, hchannels⟩

theorem pa_hop {fs : List DubboFrame} (hfs : fs <+: R.frames) {es : List (Nat × Bytes)}
    (hfits : R.pa.fits (paClientReadCbs γ ξ) S es = true)
    (hstream : (es.map Prod.snd).flatten <+: (fs.map DubboFrame.actEncode).flatten) :
    ∃ k, R.pa.run (paClientReadCbs γ ξ) S es = some k ∧
      k.env.calls.map (fun call => call.2.1) = (Decoder.complete DubboFrame.actEncode R.frames
        (es.map Prod.snd).flatten.length).map DubboFrame.answered := by
  obtain ⟨k, hrun, henv⟩ := Link.run_frames (paClientReadCbs_implements γ ξ) hS hcap actFraming
    (fun f hf => R.wf f (hfs.subset hf)) (R.pa_good _) R.pa_start.2.2.1 R.pa_unread hfits hstream
    (fun gs hgs => (R.pa_handles (hgs.trans hfs)).imp fun _ h => h.1)
  obtain ⟨client, hclient, hcalls⟩ := R.pa_handles
    (Decoder.complete_isPrefix DubboFrame.actEncode R.frames (es.map Prod.snd).flatten.length)
  obtain ⟨gs, hgs⟩ := hfs
  have hcomplete : Decoder.complete DubboFrame.actEncode R.frames
      (es.map Prod.snd).flatten.length =
        Decoder.complete DubboFrame.actEncode fs (es.map Prod.snd).flatten.length := by
    rw [← hgs]
    exact Decoder.complete_append _ hstream.length_le fun f => encodeActResponse_pos _
  rw [hcomplete] at hclient
  obtain rfl : k.env = client := Option.some.inj (henv.symm.trans hclient)
  exact ⟨k, hrun, hcalls⟩

end Responses

/-- However both byte streams are cut into reads of at most the room offered, every read callback
comes back and the consumer agent's callbacks get the frames that are complete. -/
def ResponsePath (S S' : Nat) : Prop :=
  ∀ (χ γ ξ : Type) (R : Responses χ γ ξ) (es : List (Nat × Bytes)),
    R.dubbo.fits (dubboReadCbs χ) S es = true →
    (es.map Prod.snd).flatten <+: (R.frames.map DubboFrame.encode).flatten →
    ∃ k, R.dubbo.run (dubboReadCbs χ) S es = some k ∧
      k.env.channels = (Decoder.complete DubboFrame.encode R.frames
        (es.map Prod.snd).flatten.length).map (fun f => (R.context, f.actEncode)) ∧
      ∀ es' : List (Nat × Bytes), R.pa.fits (paClientReadCbs γ ξ) S' es' = true →
        (es'.map Prod.snd).flatten <+: Responses.written k →
        ∃ k', R.pa.run (paClientReadCbs γ ξ) S' es' = some k' ∧
          k'.env.calls.map (fun call => call.2.1) =
            (Decoder.complete DubboFrame.actEncode R.frames
              (es'.map Prod.snd).flatten.length).map DubboFrame.answered

theorem response_path {S S' : Nat} (hS : 3 ≤ S) (hcap : toUInt32 S < 2147483648) (hS' : 3 ≤ S')
    (hcap' : toUInt32 S' < 2147483648) : ResponsePath S S' := by
  intro χ γ ξ R es hfits hstream
  obtain ⟨k, hrun, hchannels⟩ := R.dubbo_hop hS hcap hfits hstream
  refine ⟨k, hrun, hchannels, ?_⟩
  intro es' hfits' hstream'
  apply R.pa_hop hS' hcap' (Decoder.complete_isPrefix _ _ _) hfits'
  rw [Responses.written, hchannels, List.map_map] at hstream'
  exact hstream'

def bareActRequest (id : Int) : ActRequest := { id := id, pLen := 0, parameter := [] }

def twoResponses (f g : DubboFrame) (hf : f.Wf) (hg : g.Wf) (hne : f.id ≠ g.id) :
    Responses Unit Unit Unit where
  frames := [f, g]
  context := ()
  dubbo := ⟨⟨[], []⟩, none, ⟨.magic, ⟨0, 0, []⟩⟩,
    (DubboClient.create.dubboFetch (dubboRequestFromAct (bareActRequest f.id)) .dubboCallback
      ()).dubboFetch (dubboRequestFromAct (bareActRequest g.id)) .dubboCallback ()⟩
  pa := ⟨⟨[], []⟩, none, ⟨.id, ⟨0, 0, []⟩⟩,
    ((PaClient.create ⟨[], 0, [], 0, [], 0⟩).fetch (bareActRequest f.id) () ()).fetch
      (bareActRequest g.id) () ()⟩
  wf := by
    intro e he
    simp only [List.mem_cons, List.not_mem_nil, or_false] at he
    rcases he with rfl | rfl
    · exact hf
    · exact hg
  distinct := by simpa using hne
  registered := by
    intro e he
    simp only [List.mem_cons, List.not_mem_nil, or_false] at he
    dsimp only
    rcases he with rfl | rfl
    · apply DubboClient.Registered.fetch
      exact DubboClient.registered_fetch _ (dubboRequestFromAct (bareActRequest e.id)) _
    · exact DubboClient.registered_fetch _ (dubboRequestFromAct (bareActRequest e.id)) _
  awaited := by
    intro e he
    simp only [List.mem_cons, List.not_mem_nil, or_false] at he
    dsimp only
    rcases he with rfl | rfl
    · apply PaClient.Registered.fetch
      exact PaClient.registered_fetch _ (bareActRequest e.id) _ _
    · exact PaClient.registered_fetch _ (bareActRequest e.id) _ _
  dubbo_start := ⟨rfl, rfl, rfl, rfl⟩
  pa_start := ⟨rfl, rfl, rfl, rfl⟩

/-- Two frames in two reads, answered in three; the second payload is empty. -/
theorem response_path_two_frames :
    let R := twoResponses ⟨(2, 20), 5, [104, 0, 105]⟩ ⟨(2, 20), 3, []⟩
      ⟨by decide, by decide, by decide⟩ ⟨by decide, by decide, by decide⟩ (by decide)
    ∃ k k',
      R.dubbo.run (dubboReadCbs Unit) 65536 [(0, [0xda, 0xbb, 2, 20, 0, 0, 0, 0]),
        (0, [0, 0, 0, 5, 0, 0, 0, 3, 104, 0, 105, 0xda, 0xbb, 2, 20, 0, 0, 0, 0, 0, 0, 0, 3,
          0, 0, 0, 0])] = some k ∧
      R.pa.run (paClientReadCbs Unit Unit) 65536 [(0, [0, 0, 0]), (0, [5, 0, 0, 0, 3, 104, 0]),
        (0, [0, 0, 0, 0, 3, 0, 0, 0, 0])] = some k' ∧
      k'.env.calls.map (fun call => call.2.1) = [⟨5, 3, [104, 0, 0]⟩, ⟨3, 0, []⟩] := by
  intro R
  have hpath : ResponsePath 65536 65536 :=
    response_path (by decide) (by decide) (by decide) (by decide)
  obtain ⟨k, hk, hchannels, hpa⟩ := hpath Unit Unit Unit R [(0, [0xda, 0xbb, 2, 20, 0, 0, 0, 0]),
      (0, [0, 0, 0, 5, 0, 0, 0, 3, 104, 0, 105, 0xda, 0xbb, 2, 20, 0, 0, 0, 0, 0, 0, 0, 3,
        0, 0, 0, 0])] (by decide +kernel) (by decide)
  have hreceived : [0, 0, 0] ++ [5, 0, 0, 0, 3, 104, 0] ++ [0, 0, 0, 0, 3, 0, 0, 0, 0] <+:
      Responses.written k := by
    rw [Responses.written, hchannels]
    decide
  obtain ⟨k', hk', hcalls⟩ := hpa [(0, [0, 0, 0]), (0, [5, 0, 0, 0, 3, 104, 0]),
    (0, [0, 0, 0, 0, 3, 0, 0, 0, 0])] (by decide +kernel) hreceived
  exact ⟨k, k', hk, hk', by rw [hcalls]; decide⟩

/-- With buffers of 2^31 bytes the consumer agent may read that many at once and then calls no
callback. -/
theorem response_path_overflow : ¬ ResponsePath 2147483648 2147483648 := by
  intro h
  obtain ⟨p, hp⟩ : ∃ p : Bytes, p.length = 2147483631 :=
    ⟨List.replicate 2147483631 1, List.length_replicate⟩
  let f : DubboFrame := ⟨(0, 0), 1, p⟩
  let g : DubboFrame := ⟨(0, 0), 2, [1]⟩
  have hflen : f.encode.length = 2147483647 := by
    rw [DubboFrame.encode_length, hp]
  have hglen : g.encode.length = 17 := rfl
  have hf : f.Wf := ⟨by simp [f], by simp [f], by omega⟩
  have hg : g.Wf := ⟨by simp [g], by simp [g], by omega⟩
  let R := twoResponses f g hf hg (by simp [f, g])
  -- the Dubbo client reads the frames one by one
  obtain ⟨client, hclient, hchannels⟩ := R.dubbo_handles (List.prefix_refl R.frames)
  obtain ⟨client₁, hclient₁, hclient₂⟩ : ∃ client₁,
      R.dubbo.env.answer f.response = some client₁ ∧ client₁.answer g.response = some client := by
    have hsplit : (R.dubbo.env.answer f.response).bind
        ([g.response].foldlM DubboClient.answer ·) = some client := hclient
    obtain ⟨client₁, hfirst, hrest⟩ := Option.bind_eq_some_iff.mp hsplit
    obtain ⟨client₂, hsecond, hend⟩ := Option.bind_eq_some_iff.mp hrest
    obtain rfl : client₂ = client := Option.some.inj hend
    exact ⟨client₁, hfirst, hsecond⟩
  have hcap : toUInt32 (2147483648 : Nat) = 2147483648 := rfl
  have hC := dubboReadCbs_implements Unit
  have hroom : R.dubbo.room (dubboReadCbs Unit) 2147483648 0 = some 2147483648 := rfl
  have hfirst : ∀ n, R.dubbo.room (dubboReadCbs Unit) 2147483648 0 = some n →
      f.encode.length ≤ n ∧ toUInt32 (2147483648 : Nat) + f.encode.length < 2147483648 + n := by
    intro n hn
    obtain rfl : 2147483648 = n := Option.some.inj (hroom.symm.trans hn)
    rw [hflen, hcap]
    omega
  obtain ⟨k₁, hgood₁, hbetween₁, hunread₁, rfl, hnext₁⟩ := Link.run_frame hC (by decide)
    dubboFraming hf (R.dubbo_good _) rfl R.dubbo_unread 0 hfirst hclient₁
  obtain ⟨n₁, hroom₁, _, hn₁⟩ := Link.room_spec hC (by decide) hgood₁ 0
  rw [hunread₁, List.length_nil, hcap] at hn₁
  have hlast : ∀ n, k₁.room (dubboReadCbs Unit) 2147483648 0 = some n →
      g.encode.length ≤ n ∧ toUInt32 (2147483648 : Nat) + g.encode.length < 2147483648 + n := by
    intro n hn
    obtain rfl : n₁ = n := Option.some.inj (hroom₁.symm.trans hn)
    rw [hglen, hcap]
    omega
  obtain ⟨k₂, _, _, _, rfl, hnext₂⟩ := Link.run_frame hC (by decide) dubboFraming hg hgood₁
    hbetween₁ hunread₁ 0 hlast hclient₂
  have hfits : R.dubbo.fits (dubboReadCbs Unit) 2147483648 [(0, f.encode), (0, g.encode)] :=
    (hnext₁ _).1.trans (hnext₂ []).1
  have hrun : R.dubbo.run (dubboReadCbs Unit) 2147483648 [(0, f.encode), (0, g.encode)] =
      some k₂ := (hnext₁ _).2.trans (hnext₂ []).2
  obtain ⟨k, hk, _, hpa⟩ := h Unit Unit Unit R [(0, f.encode), (0, g.encode)] hfits
    (by simp [R, twoResponses])
  obtain rfl : k₂ = k := Option.some.inj (hrun.symm.trans hk)
  -- the consumer agent gets both answers in one read
  let stream := Responses.written k₂
  have hwritten : stream = (R.frames.map DubboFrame.actEncode).flatten := by
    simp only [stream, Responses.written, hchannels, List.map_map]
    rfl
  have hlen : stream.length = 2147483648 := by
    have hf' := hf.actEncode_length
    have hg' := hg.actEncode_length
    rw [hwritten]
    simp only [R, twoResponses, List.map_cons, List.map_nil, List.flatten_cons, List.flatten_nil,
      List.append_nil, List.length_append, hf', hg', f, g, hp]
    rfl
  obtain ⟨k₃, hk₃, henv₃⟩ := Link.complete_overflow (paClientReadCbs_implements Unit Unit)
    R.pa.ctx R.pa.env hlen
  have hread : R.pa.complete (paClientReadCbs Unit Unit) 2147483648 0 stream = some k₃ := hk₃
  have hroom₃ : R.pa.room (paClientReadCbs Unit Unit) 2147483648 0 = some 2147483648 := rfl
  obtain ⟨k', hk', hcalls⟩ := hpa [(0, stream)] (by simp [Link.fits, hroom₃, hlen])
    (by simp [stream])
  obtain rfl : k₃ = k' := by simpa [Link.run, hread] using hk'
  have hall : Decoder.complete DubboFrame.actEncode R.frames stream.length = R.frames := by
    apply Decoder.complete_all
    rw [hwritten]
  simp only [List.map_cons, List.map_nil, List.flatten_cons, List.flatten_nil, List.append_nil,
    hall, henv₃] at hcalls
  cases hcalls

end PyAgent
