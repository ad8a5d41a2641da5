import PyAgent.PaServer
import PyAgent.DubboClient
import PyAgent.PaClient

/-!
# The receive window

What an alloc callback offers to libuv is what the unread bytes leave of one buffer.
The window stays open as long as no field of a frame is longer than a buffer:
`window_open_iff`, for all three read callbacks.
-/

namespace PyAgent
set_option autoImplicit false

open Streaming

section
variable {τ σ ω κ : Type} [DecidableEq τ]

namespace Link
variable (C : ReadCbs σ κ) (S : Nat)

/-- The states of a connection that `bs` has been read from: alloc callback and read callback in
turn. In between, other connections may use the pool and anything else may change. -/
inductive Receives (k₀ : Link σ κ) : Bytes → Link σ κ → Prop where
  | start : Receives k₀ [] k₀
  | read {bs chunk : Bytes} {k k' : Link σ κ} (tie : Nat) : Receives k₀ bs k →
      -- `write_idx` does not leave the range of `int`
      (∀ n, k.room C S tie = some n → toUInt32 S + chunk.length < 2147483648 + n) →
      k.complete C S tie chunk = some k' → Receives k₀ (bs ++ chunk) k'
  | others {bs : Bytes} {k : Link σ κ} (store : BufStore) (env : κ) : Receives k₀ bs k →
      store.Wf (toUInt32 S) →
      (∀ p, k.held = some p → store.Held p ∧ store.heap[p]? = k.store.heap[p]?) →
      Receives k₀ bs { k with store := store, env := env }

def WindowOpen (k₀ : Link σ κ) (stream : Bytes) : Prop :=
  ∀ bs k tie, bs <+: stream → k₀.Receives C S bs k → ∃ n, k.room C S tie = some n ∧ 1 ≤ n

end Link

variable {C : ReadCbs σ κ} {W : Wire τ σ ω} {hook : κ → ω → Option κ} {S : Nat} {k₀ : Link σ κ}
variable (hC : C.Implements W hook) (hS : 3 ≤ S) (hk₀ : k₀.Good W (toUInt32 S))
variable (hwaits : W.decoder.Waits k₀.ctx []) (hunread : k₀.unread = [])
include hC hS hk₀ hwaits hunread

theorem Link.Receives.settles {bs : Bytes} {k : Link σ κ} (h : k₀.Receives C S bs k) :
    k.Good W (toUInt32 S) ∧ ∃ os, W.decoder.Settles k₀.ctx bs os k.ctx k.unread := by
  induction h with
  | start =>
    rw [hunread]
    exact ⟨hk₀, [], .refl _ _, hwaits⟩
  | @read bs chunk k k' tie _ hint hread ih =>
    obtain ⟨hgood, os, hs⟩ := ih
    have hroom : ∀ n, k.room C S tie = some n →
        chunk.length ≤ n ∧ toUInt32 S + chunk.length < 2147483648 + n :=
      fun n hn => ⟨Link.fits_of_complete C S hread hn, hint n hn⟩
    obtain ⟨hgood', os', hs', _⟩ := Link.settles_of_complete hC hS hgood hroom hs.2 hread
    exact ⟨hgood', os ++ os', hs.resume hs'⟩
  | @others bs k store env _ hstore hkeeps ih =>
    obtain ⟨hgood, os, hs⟩ := ih
    have hsame : unreadOf store k.held = k.unread := by
      unfold Link.unread unreadOf
      cases hheld : k.held with
      | none => rfl
      | some p => simp only [(hkeeps p hheld).2]
    refine ⟨⟨hstore, fun p hp => (hkeeps p hp).1, hgood.ok⟩, os, ?_⟩
    simp only [Link.unread, hsame]
    exact hs

/-- With every field inside a buffer there is always room for the rest of one. -/
theorem Link.windowOpen_of_within {stream : Bytes} (hcap : 0 < toUInt32 S)
    (h : W.decoder.Within (toUInt32 S) k₀.ctx stream) : k₀.WindowOpen C S stream := by
  intro bs k tie hbs hk
  obtain ⟨hgood, os, hsteps, hw⟩ := hk.settles hC hS hk₀ hwaits hunread
  obtain ⟨n, hn, _, hroom⟩ := Link.room_spec hC hS hgood tie
  refine ⟨n, hn, ?_⟩
  have hshort : k.unread.length < toUInt32 S := by
    by_cases hnil : k.unread = []
    · rw [hnil]
      exact hcap
    · obtain ⟨ts, rfl⟩ := hbs
      have hneed := h os k.ctx (k.unread ++ ts) (hsteps.append ts) (by simp [hnil])
      unfold Decoder.Waits at hw
      omega
  omega

/-- While the window stays open, every part of the stream can be received, byte by byte. -/
theorem Link.WindowOpen.receives {stream : Bytes} (hopen : k₀.WindowOpen C S stream)
    (hcap : toUInt32 S < 2147483648) {outs : Nat → List ω}
    (hsettles : ∀ ps, ps <+: stream → ∃ s us, W.decoder.Settles k₀.ctx ps (outs ps.length) s us)
    (hserved : ∀ n, ∃ os env env', outs (n + 1) = outs n ++ os ∧ os.foldlM hook env = some env')
    {ps : Bytes} (hps : ps <+: stream) : ∃ k, k₀.Receives C S ps k := by
  induction ps using List.reverseRecOn with
  | nil => exact ⟨k₀, .start⟩
  | append_singleton ps b ih =>
    have hps' : ps <+: stream := (List.prefix_append ps [b]).trans hps
    obtain ⟨k, hk⟩ := ih hps'
    obtain ⟨hgood, os₁, hs₁⟩ := hk.settles hC hS hk₀ hwaits hunread
    obtain ⟨n, hn, hpos⟩ := hopen ps k 0 hps' hk
    obtain ⟨os, env, env', hos, henv⟩ := hserved ps.length
    obtain ⟨s, us, hs⟩ := hsettles _ hps'
    obtain ⟨rfl, _, _⟩ := hs.unique hs₁
    obtain ⟨s', us', hs'⟩ := hsettles _ hps
    rw [List.length_append, List.length_singleton, hos] at hs'
    obtain ⟨os', hos', hafter⟩ := hs'.after (hs₁.1.append [b])
    obtain rfl : os = os' := List.append_cancel_left hos'
    have hk' : k₀.Receives C S ps { k with env := env } :=
      .others k.store env hk hgood.wf (fun p hp => ⟨hgood.holds p hp, rfl⟩)
    have hroom : ∀ m, Link.room C S { k with env := env } 0 = some m →
        [b].length ≤ m ∧ toUInt32 S + [b].length < 2147483648 + m := by
      intro m hm
      obtain rfl : n = m := Option.some.inj (hn.symm.trans hm)
      rw [List.length_singleton]
      exact ⟨hpos, by omega⟩
    obtain ⟨k', hread, _⟩ := Link.complete_spec hC hS (k := { k with env := env })
      ⟨hgood.wf, hgood.holds, hgood.ok⟩ 0 [b] hroom hs₁.2 hafter henv
    exact ⟨k', .read 0 hk' (fun m hm => (hroom m hm).2) hread⟩

/-- A field that is longer than a buffer closes the window once a whole buffer of it has come. -/
theorem Link.WindowOpen.within {stream : Bytes} (hopen : k₀.WindowOpen C S stream)
    (hcap : toUInt32 S < 2147483648) (outs : Nat → List ω)
    (hsettles : ∀ ps, ps <+: stream → ∃ s us, W.decoder.Settles k₀.ctx ps (outs ps.length) s us)
    (hserved : ∀ n, ∃ os env env', outs (n + 1) = outs n ++ os ∧ os.foldlM hook env = some env')
    (hwhole : ∃ os s, W.decoder.Steps k₀.ctx stream os s []) :
    W.decoder.Within (toUInt32 S) k₀.ctx stream := by
  by_contra hwide
  obtain ⟨os₁, s₁, hwhole⟩ := hwhole
  obtain ⟨ps, os, s, us, hps, hlen, hs⟩ := Decoder.exists_full hwide hwhole
  obtain ⟨k, hk⟩ := hopen.receives hC hS hk₀ hwaits hunread hcap hsettles hserved hps
  obtain ⟨hgood, os', hs'⟩ := hk.settles hC hS hk₀ hwaits hunread
  obtain ⟨_, _, rfl⟩ := hs.unique hs'
  obtain ⟨n, hn, hpos⟩ := hopen ps k 0 hps hk
  obtain ⟨n', hn', hle, _⟩ := Link.room_spec hC hS hgood 0
  obtain rfl : n = n' := Option.some.inj (hn.symm.trans hn')
  omega

/-- Behind a header come frames: the window stays open if and only if every field fits into a
buffer. -/
theorem Link.windowOpen_iff {α : Type} (F : W.decoder.Framing α) {width : α → Nat}
    (hwidth : ∀ s a, F.between s → F.good a →
      ∃ s', F.between s' ∧ W.decoder.Width s (F.enc a) (width a) s')
    (hserved : ∀ a, ∃ env env', hook env (F.out a) = some env') {hd : Bytes} {m : Nat} {s₁ : σ}
    (hhd : W.decoder.Run k₀.ctx hd [] m s₁) (hs₁ : F.between s₁) (hm : m ≤ 2147483648)
    {as : List α} (has : ∀ a ∈ as, F.good a ∧ width a ≤ 2147483648) :
    k₀.WindowOpen C S (hd ++ (as.map F.enc).flatten) ↔
      0 < toUInt32 S ∧ m ≤ toUInt32 S ∧ ∀ a ∈ as, width a ≤ toUInt32 S := by
  have hgood : ∀ a ∈ as, F.good a := fun a ha => (has a ha).1
  have hwithin : W.decoder.Within (toUInt32 S) k₀.ctx (hd ++ (as.map F.enc).flatten) ↔
      m ≤ toUInt32 S ∧ ∀ a ∈ as, width a ≤ toUInt32 S := by
    rw [hhd.width, Decoder.within_frames hwidth hs₁ hgood]
  rw [← hwithin]
  constructor
  · intro hopen
    obtain ⟨n, hn, hpos⟩ := hopen [] k₀ 0 List.nil_prefix .start
    obtain ⟨n', hn', hle, _⟩ := Link.room_spec hC hS hk₀ 0
    obtain rfl : n = n' := Option.some.inj (hn.symm.trans hn')
    refine ⟨by omega, ?_⟩
    by_cases hcap : toUInt32 S < 2147483648
    · obtain ⟨s', _, hwhole⟩ := F.whole hgood hs₁
      apply hopen.within hC hS hk₀ hwaits hunread hcap
        (fun n => (Decoder.complete F.enc as (n - hd.length)).map F.out)
      · intro ps hps
        exact F.settle_behind hgood hhd.toPiece hs₁ hps
      · intro n
        by_cases hlt : n < hd.length
        · have hzero : n + 1 - hd.length = n - hd.length := by omega
          exact ⟨[], k₀.env, k₀.env, by simp [hzero], rfl⟩
        · have hsucc : n + 1 - hd.length = n - hd.length + 1 := by omega
          obtain ⟨bs, hbs, hone⟩ := Decoder.complete_succ F.enc F.enc_pos as (n - hd.length)
          rw [hsucc, hbs]
          rcases bs with _ | ⟨a, _ | ⟨b, bs⟩⟩
          · exact ⟨[], k₀.env, k₀.env, by simp, rfl⟩
          · obtain ⟨env, env', henv⟩ := hserved a
            exact ⟨[F.out a], env, env', by simp, by simpa using henv⟩
          · simp at hone
      · exact ⟨_, s', (hhd.whole.append _).trans hwhole⟩
    · rw [hwithin]
      refine ⟨by omega, ?_⟩
      intro a ha
      have := (has a ha).2
      omega
  · intro h
    exact Link.windowOpen_of_within hC hS hk₀ hwaits hunread h.1 h.2

end

/-! ## The three connections -/

section
variable {κ χ γ ξ : Type} {S : Nat} {m : BufStore}

theorem ActRequest.Sized.width_le {request : ActRequest} (hr : request.Sized) :
    request.width ≤ 2147483648 := by
  have := hr.parameter_lt
  unfold ActRequest.width
  omega

theorem ActReuseKey.Sized.width_le {key : ActReuseKey} (hkey : key.Sized) :
    key.width ≤ 2147483648 := by
  have := hkey.interface_lt
  have := hkey.method_lt
  have := hkey.pts_lt
  unfold ActReuseKey.width
  omega

theorem accepted_windowOpen_iff (hS : 3 ≤ S) (hm : m.Wf (toUInt32 S)) (block : StreamContext)
    (env : κ) (dubboFetch : κ → DubboRequest → κ) (uvClose : κ → κ) {key : ActReuseKey}
    (hkey : key.Sized) {rs : List ActRequest} (hrs : ∀ r ∈ rs, r.Sized) :
    (accepted m block env).WindowOpen (paReadCbs (fun k r => some (dubboFetch k r)) uvClose) S
        (key.raw ++ (rs.map ActRequest.raw).flatten) ↔
      key.width ≤ toUInt32 S ∧ ∀ r ∈ rs, r.width ≤ toUInt32 S := by
  obtain ⟨c, hc, hrun⟩ := raw_key_run hkey block
  have hserved : ∀ r : ActRequest, ∃ k k', some (dubboFetch k (r.under key)) = some k' :=
    fun r => ⟨env, _, rfl⟩
  have hpos : 4 ≤ key.width := Nat.le_max_left _ _
  let fetch : κ → DubboRequest → Option κ := fun k r => some (dubboFetch k r)
  have himplements : (paReadCbs fetch uvClose).Implements actWire fetch := paReadCbs_implements
  have h := Link.windowOpen_iff himplements hS (accepted_good hm block env)
    (accepted_waits m block env) rfl (rawRequestFraming key) (raw_request_width key) hserved
    hrun hc hkey.width_le (fun r hr => ⟨hrs r hr, (hrs r hr).width_le⟩)
  refine h.trans ?_
  constructor
  · exact fun h => h.2
  · exact fun h => ⟨by omega, h⟩

theorem dubboLink_windowOpen_iff [Inhabited χ] (hS : 3 ≤ S) (hm : m.Wf (toUInt32 S))
    (resp : DubboResponse) (client : DubboClient χ) {fs : List RawDubboFrame}
    (hfs : ∀ f ∈ fs, f.Wf) :
    (dubboLink m resp client).WindowOpen (dubboReadCbs χ) S (fs.map RawDubboFrame.encode).flatten ↔
      0 < toUInt32 S ∧ ∀ f ∈ fs, f.width ≤ toUInt32 S := by
  have hwidth : ∀ s (f : RawDubboFrame), s.readState = .magic → f.Wf →
      ∃ s', s'.readState = .magic ∧ dubboWire.decoder.Width s f.encode f.width s' := by
    intro s f hs hf
    obtain ⟨s', hs', hrun⟩ := DubboReader.raw_run hs hf
    exact ⟨s', hs', hrun.width⟩
  have hserved : ∀ f : RawDubboFrame,
      ∃ k k', DubboClient.answer (χ := χ) k f.response = some k' := by
    intro f
    let called : DubboClient χ := DubboClient.create.dubboFetch
      ⟨f.response.id, [], 0, [], 0, [], 0, [], 0, [], 0, 0⟩ .dubboCallback default
    have hknown : called.Knows f.response.id := by
      simp [called, DubboClient.Knows, DubboClient.dubboFetch]
    obtain ⟨k', hk', _⟩ := DubboClient.answer_known hknown
    exact ⟨called, k', hk'⟩
  have hle : ∀ f ∈ fs, f.width ≤ 2147483648 := by
    intro f hf
    have := (hfs f hf).payload_lt
    unfold RawDubboFrame.width
    omega
  have h := Link.windowOpen_iff (dubboReadCbs_implements χ) hS (dubboLink_good hm resp client)
    (rawFraming.need_pos _ rfl) rfl rawFraming hwidth hserved (Decoder.Run.nil _) rfl
    (Nat.zero_le _) (fun f hf => ⟨hfs f hf, hle f hf⟩)
  rw [List.nil_append] at h
  refine h.trans ?_
  constructor
  · exact fun h => ⟨h.1, h.2.2⟩
  · exact fun h => ⟨h.1, Nat.zero_le _, h.2⟩

theorem paLink_windowOpen_iff [Inhabited γ] [Inhabited ξ] (hS : 3 ≤ S) (hm : m.Wf (toUInt32 S))
    (resp : ActResponse) (client : PaClient γ ξ) {fs : List ActFrame} (hfs : ∀ f ∈ fs, f.Sized) :
    (paLink m resp client).WindowOpen (paClientReadCbs γ ξ) S (fs.map ActFrame.encode).flatten ↔
      0 < toUInt32 S ∧ ∀ f ∈ fs, f.width ≤ toUInt32 S := by
  have hwidth : ∀ s (f : ActFrame), s.readState = .id → f.Sized →
      ∃ s', s'.readState = .id ∧ paWire.decoder.Width s f.encode f.width s' := by
    intro s f hs hf
    obtain ⟨s', hs', hrun⟩ := PaReader.sized_run hs hf
    exact ⟨s', hs', hrun.width⟩
  have hserved : ∀ f : ActFrame,
      ∃ k k', PaClient.answer (γ := γ) (χ := ξ) k f.response = some k' := by
    intro f
    let called : PaClient γ ξ := (PaClient.create ⟨[], 0, [], 0, [], 0⟩).fetch
      { id := f.id, pLen := 0, parameter := [] } default default
    have hcb : called.callbacks f.response.id = some default := by
      simp [called, PaClient.fetch, ActFrame.response]
    have hcontext : called.contexts f.response.id = some default := by
      simp [called, PaClient.fetch, ActFrame.response]
    exact ⟨called, _, PaClient.answer_of_some hcb hcontext⟩
  have hle : ∀ f ∈ fs, f.width ≤ 2147483648 := by
    intro f hf
    have := (hfs f hf).payload_lt
    unfold ActFrame.width
    omega
  have h := Link.windowOpen_iff (paClientReadCbs_implements γ ξ) hS (paLink_good hm resp client)
    (sizedFraming.need_pos _ rfl) rfl sizedFraming hwidth hserved (Decoder.Run.nil _) rfl
    (Nat.zero_le _) (fun f hf => ⟨hfs f hf, hle f hf⟩)
  rw [List.nil_append] at h
  refine h.trans ?_
  constructor
  · exact fun h => ⟨h.1, h.2.2⟩
  · exact fun h => ⟨h.1, Nat.zero_le _, h.2⟩

/-- On every stream of frames the alloc callbacks always have room to offer if and only if no field
is longer than the buffers. -/
theorem window_open_iff [Inhabited χ] [Inhabited γ] [Inhabited ξ] (hS : 3 ≤ S)
    (hm : m.Wf (toUInt32 S)) (dubboFetch : κ → DubboRequest → κ) (uvClose : κ → κ) :
    (∀ block env (key : ActReuseKey) (rs : List ActRequest), key.Sized → (∀ r ∈ rs, r.Sized) →
      ((accepted m block env).WindowOpen (paReadCbs (fun k r => some (dubboFetch k r)) uvClose) S
          (key.raw ++ (rs.map ActRequest.raw).flatten) ↔
        key.width ≤ toUInt32 S ∧ ∀ r ∈ rs, r.width ≤ toUInt32 S)) ∧
    (∀ resp (client : DubboClient χ) (fs : List RawDubboFrame), (∀ f ∈ fs, f.Wf) →
      ((dubboLink m resp client).WindowOpen (dubboReadCbs χ) S
          (fs.map RawDubboFrame.encode).flatten ↔
        0 < toUInt32 S ∧ ∀ f ∈ fs, f.width ≤ toUInt32 S)) ∧
    ∀ resp (client : PaClient γ ξ) (fs : List ActFrame), (∀ f ∈ fs, f.Sized) →
      ((paLink m resp client).WindowOpen (paClientReadCbs γ ξ) S
          (fs.map ActFrame.encode).flatten ↔
        0 < toUInt32 S ∧ ∀ f ∈ fs, f.width ≤ toUInt32 S) := by
  refine ⟨?_, ?_, ?_⟩
  · intro block env key rs hkey hrs
    exact accepted_windowOpen_iff hS hm block env dubboFetch uvClose hkey hrs
  · intro resp client fs hfs
    exact dubboLink_windowOpen_iff hS hm resp client hfs
  · intro resp client fs hfs
    exact paLink_windowOpen_iff hS hm resp client hfs

end

/-- Two small responses, through the whole theorem. -/
theorem window_open_iff_two_responses :
    let client : PaClient Unit Unit := .create ⟨[], 0, [], 0, [], 0⟩
    (paLink ⟨[], []⟩ ⟨0, 0, []⟩ client).WindowOpen (paClientReadCbs Unit Unit) 65536
      ([⟨7, [78]⟩, ⟨8, []⟩].map ActFrame.encode).flatten := by
  have hm := BufStore.wf_empty (toUInt32 (65536 : Nat))
  have hcap : toUInt32 (65536 : Nat) = 65536 := toUInt32_of_lt (by omega)
  have hfs : ∀ f ∈ ([⟨7, [78]⟩, ⟨8, []⟩] : List ActFrame), f.Sized := by
    intro f hf
    simp only [List.mem_cons, List.not_mem_nil, or_false] at hf
    rcases hf with rfl | rfl
    · exact ⟨⟨by simp, by simp⟩, by simp⟩
    · exact ⟨⟨by simp, by simp⟩, by simp⟩
  obtain ⟨_, _, hpa⟩ := window_open_iff (κ := Unit) (χ := Unit) (γ := Unit) (ξ := Unit)
    (S := 65536) (by omega) hm (fun k _ => k) id
  apply (hpa _ _ _ hfs).mpr
  rw [hcap]
  exact ⟨by omega, by simp [ActFrame.width]⟩

/-- A response of 65537 bytes to a consumer agent whose buffers have 65536. -/
theorem window_closes :
    let client : PaClient Unit Unit := .create ⟨[], 0, [], 0, [], 0⟩
    ¬ (paLink ⟨[], []⟩ ⟨0, 0, []⟩ client).WindowOpen (paClientReadCbs Unit Unit) 65536
      ([⟨7, List.replicate 65537 78⟩].map ActFrame.encode).flatten := by
  intro client
  have hm := BufStore.wf_empty (toUInt32 (65536 : Nat))
  have hcap : toUInt32 (65536 : Nat) = 65536 := toUInt32_of_lt (by omega)
  have hlen : (List.replicate 65537 (78 : UInt8)).length = 65537 := List.length_replicate
  generalize List.replicate 65537 (78 : UInt8) = payload at hlen ⊢
  have hfs : ∀ f ∈ ([⟨7, payload⟩] : List ActFrame), f.Sized := by
    intro f hf
    obtain rfl := List.mem_singleton.mp hf
    exact ⟨⟨by simp, by simp⟩, by simp [hlen]⟩
  intro hopen
  obtain ⟨_, hwidth⟩ := (paLink_windowOpen_iff (by omega) hm _ _ hfs).mp hopen
  have h := hwidth _ (List.mem_singleton_self _)
  rw [hcap] at h
  simp [ActFrame.width, hlen] at h

end PyAgent
