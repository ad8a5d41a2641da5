import PyAgent.DubboEncode
import PyAgent.Window

/-!
# The two provider agents

What pa.cc and pa.py send to the provider for one act stream. The former reads it in
whatever pieces libuv delivers for as long as its buffer has room, the latter field by
field; both encode one Dubbo request for each act request.
-/

namespace PyAgent
set_option autoImplicit false

open Streaming

/-! ## As much of a stream as can be delivered -/

section
variable {τ σ ω κ : Type} [DecidableEq τ]

/-- libuv goes on until the stream has been read or an alloc callback offers nothing. -/
structure Link.Delivers (C : ReadCbs σ κ) (S : Nat) (k₀ : Link σ κ) (stream : Bytes)
    (es : List (Nat × Bytes)) (k : Link σ κ) : Prop where
  run : k₀.run C S es = some k
  isPrefix : (es.map Prod.snd).flatten <+: stream
  ends : (es.map Prod.snd).flatten = stream ∨ ∃ tie, k.room C S tie = some 0

variable {C : ReadCbs σ κ} {W : Wire τ σ ω} {hook : κ → ω → Option κ} {S : Nat}
variable (hC : C.Implements W hook) (hS : 3 ≤ S) (hcap : toUInt32 S < 2147483648)
include hC hS hcap

/-- If the reads that fit come back, then libuv can deliver as much as there is room for. -/
theorem Link.exists_delivers_of_runs {stream : Bytes} {k : Link σ κ} (hk : k.Good W (toUInt32 S))
    (hwaits : W.decoder.Waits k.ctx k.unread)
    (hall : ∀ es, k.fits C S es = true → (es.map Prod.snd).flatten <+: stream →
      (k.run C S es).isSome) : ∃ es k', k.Delivers C S stream es k' := by
  induction stream generalizing k with
  | nil => exact ⟨[], k, rfl, List.nil_prefix, Or.inl rfl⟩
  | cons b stream ih =>
    obtain ⟨n, hn, _⟩ := Link.room_spec hC hS hk 0
    rcases Nat.eq_zero_or_pos n with rfl | hpos
    · exact ⟨[], k, rfl, List.nil_prefix, Or.inr ⟨0, hn⟩⟩
    · have hfits : ∀ es, (∀ k₁, k.complete C S 0 [b] = some k₁ → k₁.fits C S es = true) →
          k.fits C S ((0, [b]) :: es) = true := by
        intro es hes
        simp only [fits, hn, Option.all_some, Bool.and_eq_true, Option.all_eq_true]
        exact ⟨decide_eq_true hpos, hes⟩
      obtain ⟨k₁, hk₁⟩ : ∃ k₁, k.complete C S 0 [b] = some k₁ := by
        have hone := hall [(0, [b])] (hfits [] fun _ _ => rfl) ⟨stream, rfl⟩
        obtain ⟨k₁, hrun⟩ := Option.isSome_iff_exists.mp hone
        obtain ⟨k₁, hk₁, _⟩ := Option.bind_eq_some_iff.mp hrun
        exact ⟨k₁, hk₁⟩
      obtain ⟨hgood, _, hs, _⟩ := settles_of_complete hC hS hk (room_of_complete hcap hk₁) hwaits
        hk₁
      have hrest : ∀ es, k₁.fits C S es = true → (es.map Prod.snd).flatten <+: stream →
          (k₁.run C S es).isSome := by
        intro es hes hprefix
        have hmore := hall ((0, [b]) :: es) (hfits es fun k' hk' => by
          obtain rfl := Option.some.inj (hk₁.symm.trans hk')
          exact hes) ((List.prefix_cons_inj b).mpr hprefix)
        rwa [Link.run, hk₁] at hmore
      obtain ⟨es, k', h⟩ := ih hgood hs.2 hrest
      refine ⟨(0, [b]) :: es, k', ?_, ?_, ?_⟩
      · simp only [Link.run, hk₁, Option.bind_some, h.run]
      · exact (List.prefix_cons_inj b).mpr h.isPrefix
      · rcases h.ends with hends | hends
        · exact Or.inl (congrArg (List.cons b) hends)
        · exact Or.inr hends

theorem Link.exists_delivers {stream : Bytes} {k : Link σ κ} (hk : k.Good W (toUInt32 S))
    (hwaits : W.decoder.Waits k.ctx k.unread)
    (hall : ∀ ps, ps <+: stream → ∃ os s' us' env',
      W.decoder.Settles k.ctx (k.unread ++ ps) os s' us' ∧ os.foldlM hook k.env = some env') :
    ∃ es k', k.Delivers C S stream es k' := by
  apply Link.exists_delivers_of_runs hC hS hcap hk hwaits
  intro es hfits hprefix
  obtain ⟨k', _, hrun, _⟩ := Link.run_settles hC hS hcap hk hwaits hfits
    fun ps hps => hall ps (hps.trans hprefix)
  rw [hrun]
  rfl

/-- The whole stream is delivered if no field is longer than a buffer. -/
theorem Link.Delivers.whole {stream : Bytes} {es : List (Nat × Bytes)} {k₀ k : Link σ κ}
    (h : k₀.Delivers C S stream es k) (hk₀ : k₀.Good W (toUInt32 S))
    (hwaits : W.decoder.Waits k₀.ctx []) (hunread : k₀.unread = [])
    (hwithin : W.decoder.Within (toUInt32 S) k₀.ctx stream) (hpos : 0 < toUInt32 S) :
    (es.map Prod.snd).flatten = stream := by
  rcases h.ends with hends | ⟨tie, hfull⟩
  · exact hends
  · have hwaits₀ : W.decoder.Waits k₀.ctx k₀.unread := by
      rw [hunread]
      exact hwaits
    obtain ⟨hgood, os, hs, _⟩ := settles_of_run hC hS hcap hk₀ hwaits₀ h.run
    rw [hunread, List.nil_append] at hs
    obtain ⟨n, hn, _, hroom⟩ := Link.room_spec hC hS hgood tie
    obtain rfl : n = 0 := Option.some.inj (hn.symm.trans hfull)
    have hlen : k.unread.length = toUInt32 S := by omega
    obtain ⟨ts, hts⟩ := h.isPrefix
    have hsteps := hs.1.append ts
    rw [hts] at hsteps
    have hne : k.unread ++ ts ≠ [] := by
      intro hnil
      rw [(List.append_eq_nil_iff.mp hnil).1] at hlen
      simp only [List.length_nil] at hlen
      omega
    have hneed := hwithin os k.ctx _ hsteps hne
    have hw := hs.2
    unfold Decoder.Waits at hw
    omega

end

/-! ## pa.cc -/

/-- `on_read` calls `dubbo_fetch` with `_dubbo_callback` and its own context. -/
def paFetch {χ : Type} (context : χ) (client : DubboClient χ) (request : DubboRequest) :
    Option (DubboClient χ) :=
  some (client.dubboFetch request .dubboCallback context)

namespace DubboClient
variable {χ : Type}

/-- What has been written once the connection is up. -/
def sent (client : DubboClient χ) : Bytes :=
  client.socket ++ (client.queue.map dubboRequestEncode).flatten

theorem handleQueue_sent (client : DubboClient χ) : client.handleQueue.sent = client.sent := by
  unfold handleQueue
  split
  · simp [sent]
  · rfl

theorem dubboFetch_sent (client : DubboClient χ) (request : DubboRequest) (cb : DubboCallback)
    (context : χ) :
    (client.dubboFetch request cb context).sent = client.sent ++ dubboRequestEncode request := by
  rw [dubboFetch, handleQueue_sent]
  simp [sent]

theorem foldlM_paFetch (rs : List DubboRequest) (context : χ) (client : DubboClient χ) :
    ∃ client', rs.foldlM (paFetch context) client = some client' ∧
      client'.sent = client.sent ++ (rs.map dubboRequestEncode).flatten := by
  induction rs generalizing client with
  | nil => exact ⟨client, rfl, by simp⟩
  | cons r rs ih =>
    obtain ⟨client', hfold, hsent⟩ := ih (client.dubboFetch r .dubboCallback context)
    refine ⟨client', hfold, ?_⟩
    rw [hsent, dubboFetch_sent, List.map_cons, List.flatten_cons, List.append_assoc]

end DubboClient

/-! ## pa.py -/

def ActReuseKey.python (key : ActReuseKey) : Python.ChannelKey :=
  ⟨key.interface, key.method, key.pts⟩

/-- The Dubbo request pa.py makes of an act request. -/
def ActRequest.call (request : ActRequest) (key : ActReuseKey) : Python.Request :=
  Python.makeDubboRequest
    { Python.makeRequest key.python request.id.toNat with parameter := request.parameter }

/-- What the act stream of a connection looks like. -/
def actStream (key : ActReuseKey) (rs : List ActRequest) : Bytes :=
  key.raw ++ (rs.map ActRequest.raw).flatten

namespace Python

theorem readKey_raw {key : ActReuseKey} (hkey : key.Sized) (rest : Bytes) :
    readKey (key.raw ++ rest) = some (key.python, rest) := by
  have hi := hkey.interface_lt
  have hm := hkey.method_lt
  have hp := hkey.pts_lt
  have hraw : key.raw ++ rest =
      [0xab, 0xcd] ++ (writeInt key.interface.length ++ key.interface ++
        (writeInt key.method.length ++ key.method ++
          (writeInt key.pts.length ++ key.pts ++ rest))) := by
    simp only [ActReuseKey.raw, hkey.interfaceLen, hkey.methodLen, hkey.ptsLen, List.append_assoc]
  have hmagic : ∀ rest, readBytes 2 ([0xab, 0xcd] ++ rest) = some ([0xab, 0xcd], rest) :=
    readBytes_append rfl
  rw [hraw]
  simp only [readKey, hmagic, Option.bind_eq_bind, Option.bind_some, if_true,
    readSized_append (Nat.lt_trans hi (by decide)), readSized_append (Nat.lt_trans hm (by decide)),
    readSized_append (Nat.lt_trans hp (by decide))]
  rfl

theorem readRequest_raw {request : PyAgent.ActRequest} (hr : request.Sized) (h0 : 0 ≤ request.id)
    (key : ChannelKey) (rest : Bytes) : readRequest key (request.raw ++ rest) =
      some ({ makeRequest key request.id.toNat with parameter := request.parameter }, rest) := by
  have hlt := hr.parameter_lt
  have hid := hr.id.2
  obtain ⟨id, hnat⟩ := Int.eq_ofNat_of_zero_le h0
  have hraw : request.raw ++ rest = writeInt id ++
      (writeInt request.parameter.length ++ request.parameter ++ rest) := by
    simp only [PyAgent.ActRequest.raw, hr.pLen, hnat, List.append_assoc]
  have hread := readBytes_append (writeInt_length id)
  rw [hraw, hnat, Int.toNat_natCast]
  simp only [readRequest, hread, Option.bind_eq_bind, Option.bind_some,
    readSized_append (Nat.lt_trans hlt (by decide)), bytes2int_writeInt (v := id) (by omega)]

theorem serve_raw {rs : List PyAgent.ActRequest} (hrs : ∀ r ∈ rs, r.Sized ∧ 0 ≤ r.id)
    (key : ActReuseKey) (conn : DubboConnection) :
    serve key.python (rs.map PyAgent.ActRequest.raw).flatten conn =
      (rs.map (·.call key)).foldlM DubboConnection.fetch conn := by
  induction rs generalizing conn with
  | nil => exact serve_none rfl conn
  | cons r rs ih =>
    obtain ⟨⟨hr, h0⟩, hrest⟩ := List.forall_mem_cons.mp hrs
    rw [List.map_cons, List.flatten_cons, serve_some (readRequest_raw hr h0 key.python _),
      List.map_cons, List.foldlM_cons]
    exact congrArg _ (funext (ih hrest))

theorem mapM_encode_iff {rs : List Request} {frames : List Bytes} :
    rs.mapM Request.encode = some frames ↔
      (∀ r ∈ rs, r.encode = some r.frame) ∧ frames = rs.map Request.frame := by
  constructor
  · intro h
    induction rs generalizing frames with
    | nil => exact ⟨by simp, (Option.some.inj h).symm⟩
    | cons r rs ih =>
      rw [List.mapM_cons] at h
      obtain ⟨frame, hframe, h⟩ := Option.bind_eq_some_iff.mp h
      obtain ⟨frames', hframes, h⟩ := Option.bind_eq_some_iff.mp h
      obtain rfl := Option.some.inj h
      obtain ⟨hrest, rfl⟩ := ih hframes
      obtain rfl : frame = r.frame := by
        rw [Request.encode_eq] at hframe
        split at hframe
        · exact (Option.some.inj hframe).symm
        · cases hframe
      exact ⟨List.forall_mem_cons.mpr ⟨hframe, hrest⟩, rfl⟩
  · rintro ⟨h, rfl⟩
    induction rs with
    | nil => rfl
    | cons r rs ih =>
      obtain ⟨hr, hrest⟩ := List.forall_mem_cons.mp h
      simp only [List.mapM_cons, hr, ih hrest, Option.bind_eq_bind, Option.bind_some, List.map_cons]
      rfl

theorem Request.exists_body_eq (r : Request) :
    ∃ before after, ∀ pts, { r with parameterTypesString := pts }.body =
      before ++ (pts ++ after) := by
  refine ⟨quoted r.dubboVersion ++ quoted r.interfaceName ++ ascii "null\n" ++
    quoted r.methodName ++ ascii "\"", ascii "\"\n" ++ quoted (r.args.getD (ascii "None")) ++
      (ascii "\x7b\"path\":\"com.alibaba.dubbo.performance.demo.provider.IHelloService\"\x7d" ++
        ascii "\n"), ?_⟩
  intro pts
  simp only [body, quoted, List.append_assoc]

/-- Frames of two requests that differ in their parameter types only, each with a length that fits
into its field: what follows them does not hide the difference. -/
theorem Request.pts_inj (r : Request) {pts pts' : Bytes} (hlt : pts.length < 4294967296)
    (hlt' : pts'.length < 4294967296) {xs ys : Bytes}
    (h : { r with parameterTypesString := pts }.frame ++ xs =
      { r with parameterTypesString := pts' }.frame ++ ys) : pts = pts' := by
  obtain ⟨before, after, hbody⟩ := r.exists_body_eq
  simp only [frame, List.append_assoc, hbody] at h
  have h := List.append_cancel_left (List.append_cancel_left h)
  obtain ⟨hint, h⟩ := List.append_inj h (by simp)
  have hlen : pts.length = pts'.length := by
    have hmod := writeInt_emod_inj hint
    simp only [List.length_append] at hmod
    omega
  exact (List.append_inj (List.append_cancel_left h) hlen).1

theorem handleStream_sent (bs : Bytes) {key : ActReuseKey} (hkey : key.Sized)
    {rs : List PyAgent.ActRequest} (hrs : ∀ r ∈ rs, r.Sized ∧ 0 ≤ r.id) {server : PAServer}
    {before : Bytes} (hbefore : (server.channel key.python).sent = some before) :
    (∃ server', handleStream server (actStream key rs) = some server' ∧
      (server'.channel key.python).sent = some (before ++ bs)) ↔
    (∀ r ∈ rs, (r.call key).encode = some (r.call key).frame) ∧
      bs = (rs.map fun r => (r.call key).frame).flatten := by
  have hhandle : handleStream server (actStream key rs) =
      ((rs.map (·.call key)).foldlM DubboConnection.fetch (server.channel key.python)).map
        (server.setChannel key.python) := by
    simp only [handleStream, actStream, readKey_raw hkey, serve_raw hrs]
  have hfold := DubboConnection.foldlM_fetch_sent (rs.map (·.call key)) (server.channel key.python)
  rw [hbefore, Option.bind_some] at hfold
  constructor
  · rintro ⟨server', hserver, hsent⟩
    rw [hhandle] at hserver
    obtain ⟨conn, hconn, rfl⟩ := Option.map_eq_some_iff.mp hserver
    rw [PAServer.channel_setChannel] at hsent
    rw [hconn, Option.bind_some, hsent] at hfold
    obtain ⟨frames, hframes, heq⟩ := Option.map_eq_some_iff.mp hfold.symm
    obtain ⟨hall, rfl⟩ := mapM_encode_iff.mp hframes
    refine ⟨fun r hr => hall _ (List.mem_map_of_mem hr), ?_⟩
    rw [← List.append_cancel_left heq, List.map_map]
    rfl
  · rintro ⟨hall, rfl⟩
    have hframes : (rs.map (·.call key)).mapM Request.encode =
        some ((rs.map (·.call key)).map Request.frame) := by
      apply mapM_encode_iff.mpr
      refine ⟨?_, rfl⟩
      intro r hr
      obtain ⟨r', hr', rfl⟩ := List.mem_map.mp hr
      exact hall r' hr'
    rw [hframes, Option.map_some] at hfold
    obtain ⟨conn, hconn, hsent⟩ := Option.bind_eq_some_iff.mp hfold
    refine ⟨server.setChannel key.python conn, by rw [hhandle, hconn, Option.map_some], ?_⟩
    rw [PAServer.channel_setChannel, hsent, List.map_map]
    rfl

end Python

/-! ## Both agents on one stream -/

structure ActReuseKey.NulFree (key : ActReuseKey) : Prop extends key.Sized where
  interface_nul : 0 ∉ key.interface
  method_nul : 0 ∉ key.method
  pts_nul : 0 ∉ key.pts

structure ActRequest.NulFree (request : ActRequest) : Prop extends request.Sized where
  id_nonneg : 0 ≤ request.id
  parameter_nul : 0 ∉ request.parameter

/-- What pa.cc and pa.py add to what they have sent to the provider is the same. -/
def ProvidersAgree {χ : Type} (client client' : DubboClient χ) (server : Python.PAServer)
    (key : ActReuseKey) (stream : Bytes) : Prop :=
  ∃ bs server', client'.sent = client.sent ++ bs ∧
    Python.handleStream server stream = some server' ∧
    (server'.channel key.python).sent = (server.channel key.python).sent.map (· ++ bs)

section
variable {χ : Type} {S : Nat} {m : BufStore} {block : StreamContext} {client : DubboClient χ}
  {context : χ} {uvClose : DubboClient χ → DubboClient χ} {key : ActReuseKey}
  {rs : List ActRequest} {es : List (Nat × Bytes)} {k : Link StreamContext (DubboClient χ)}

theorem ActRequest.under_sized (hkey : key.Sized) {r : ActRequest} (hr : r.Sized) :
    (r.under key).Sized := by
  refine ⟨rfl, ?_, ?_, ?_, ?_⟩
  · simp only [under, nulPadded_length, hkey.interfaceLen]
  · simp only [under, nulPadded_length, hkey.methodLen]
  · simp only [under, nulPadded_length, hkey.ptsLen]
  · simp only [under, nulPadded_length, hr.pLen]

/-- The parameter types are what tells the two requests apart. -/
theorem ActRequest.python_under (hkey : key.NulFree) {r : ActRequest} (hr : r.NulFree) :
    (r.under key).python = { r.call key with parameterTypesString := key.pts } := by
  have hid := Int.toNat_of_nonneg hr.id_nonneg
  simp only [DubboRequest.python, under, call, Python.makeDubboRequest, Python.makeRequest,
    ActReuseKey.python, nulPadded_of_no_nul hkey.interface_nul, nulPadded_of_no_nul hkey.method_nul,
    nulPadded_of_no_nul hkey.pts_nul, nulPadded_of_no_nul hr.parameter_nul, hid]

def ActRequest.frame (key : ActReuseKey) (r : ActRequest) : Bytes :=
  { r.call key with parameterTypesString := key.pts }.frame

theorem within_iff (block : StreamContext) (hkey : key.Sized) (hrs : ∀ r ∈ rs, r.Sized)
    (cap : Nat) : actWire.decoder.Within cap (createPaContext block) (actStream key rs) ↔
      key.width ≤ cap ∧ ∀ r ∈ rs, r.width ≤ cap := by
  obtain ⟨c, hc, hrun⟩ := raw_key_run hkey block
  rw [actStream, hrun.width, Decoder.within_frames (raw_request_width key) hc hrs]

variable (hS : 3 ≤ S) (hm : m.Wf (toUInt32 S)) (hkey : key.NulFree) (hrs : ∀ r ∈ rs, r.NulFree)
  (hcap : toUInt32 S < 2147483648)
include hS hm hkey hrs hcap

/-- pa.cc has sent the frames of the requests that it got as a whole. -/
theorem sent_of_delivers (h : (accepted m block client).Delivers
    (paReadCbs (paFetch context) uvClose) S (actStream key rs) es k) :
    k.env.sent = client.sent ++ ((Decoder.complete ActRequest.raw rs
      ((es.map Prod.snd).flatten.length - key.raw.length)).map (ActRequest.frame key)).flatten := by
  obtain ⟨c, hc, hrun⟩ := raw_key_run hkey.toSized block
  obtain ⟨s', us', hs⟩ := (rawRequestFraming key).settle_behind (fun r hr => (hrs r hr).toSized)
    hrun.toPiece hc h.isPrefix
  obtain ⟨_, os, hs', henv⟩ := Link.settles_of_run paReadCbs_implements hS hcap
    (accepted_good hm block client) (accepted_waits m block client) h.run
  obtain ⟨rfl, _, _⟩ := hs.unique hs'
  obtain ⟨client', hfold, hsent⟩ := DubboClient.foldlM_paFetch _ context client
  obtain rfl : client' = k.env := Option.some.inj (hfold.symm.trans henv)
  rw [hsent, List.map_map]
  congr 2
  apply List.map_congr_left
  intro r hr
  have hr' := hrs r ((Decoder.complete_isPrefix _ _ _).subset hr)
  have hframe := (ActRequest.under_sized hkey.toSized hr'.toSized).encode_frame
  rw [ActRequest.python_under hkey hr'] at hframe
  exact hframe

/-- pa.cc gets all requests exactly when every field fits into its buffer. -/
theorem complete_eq_iff (hne : rs ≠ []) (h : (accepted m block client).Delivers
    (paReadCbs (paFetch context) uvClose) S (actStream key rs) es k) :
    Decoder.complete ActRequest.raw rs ((es.map Prod.snd).flatten.length - key.raw.length) = rs ↔
      key.width ≤ toUInt32 S ∧ ∀ r ∈ rs, r.width ≤ toUInt32 S := by
  have hwithin := within_iff block hkey.toSized (fun r hr => (hrs r hr).toSized) (toUInt32 S)
  rw [← hwithin]
  have hgood := accepted_good hm block client
  have hwaits := accepted_waits m block client
  constructor
  · intro hall
    have hlen := Decoder.complete_length_le ActRequest.raw rs
      ((es.map Prod.snd).flatten.length - key.raw.length)
    rw [hall] at hlen
    obtain ⟨r, hr⟩ := List.exists_mem_of_ne_nil rs hne
    have hpos : 0 < (rs.map ActRequest.raw).flatten.length := by
      apply Nat.lt_of_lt_of_le r.raw_pos
      exact (List.sublist_flatten_of_mem (List.mem_map_of_mem hr)).length_le
    have hstream : (es.map Prod.snd).flatten = actStream key rs := by
      apply h.isPrefix.eq_of_length_le
      simp only [actStream, List.length_append]
      omega
    obtain ⟨c, hc, hrun⟩ := raw_key_run hkey.toSized block
    obtain ⟨s', hs', hwhole⟩ :=
      (rawRequestFraming key).whole (fun r hr => (hrs r hr).toSized) hc
    obtain ⟨_, os, hs, _⟩ := Link.settles_of_run paReadCbs_implements hS hcap hgood hwaits h.run
    rw [hstream] at hs
    obtain ⟨_, _, hunread⟩ := hs.unique ⟨(hrun.whole.append _).trans hwhole, hs'.need_pos⟩
    intro os₁ s₁ us₁ hsteps hne₁
    rw [← hstream] at hsteps
    apply Link.need_le_of_run paReadCbs_implements hS hcap hgood hwaits h.run hsteps
    rw [hunread]
    exact List.length_pos_of_ne_nil hne₁
  · intro hfits
    have hpos : 0 < toUInt32 S := by
      have hwidth : 4 ≤ key.width := Nat.le_max_left _ _
      have := (hwithin.mp hfits).1
      omega
    apply Decoder.complete_all
    rw [h.whole paReadCbs_implements hS hcap hgood hwaits rfl hfits hpos, actStream,
      List.length_append]
    omega

theorem providersAgree_iff (h : (accepted m block client).Delivers
    (paReadCbs (paFetch context) uvClose) S (actStream key rs) es k) {server : Python.PAServer}
    {before : Bytes} (hbefore : (server.channel key.python).sent = some before) :
    ProvidersAgree client k.env server key (actStream key rs) ↔
      (∀ r ∈ rs, (r.call key).encode = some (r.call key).frame) ∧
        ((Decoder.complete ActRequest.raw rs
          ((es.map Prod.snd).flatten.length - key.raw.length)).map (ActRequest.frame key)).flatten =
            (rs.map fun r => (r.call key).frame).flatten := by
  have hsent := sent_of_delivers hS hm hkey hrs hcap h
  have hpython (bs : Bytes) := Python.handleStream_sent bs hkey.toSized
    (fun r hr => ⟨(hrs r hr).toSized, (hrs r hr).id_nonneg⟩) hbefore
  rw [ProvidersAgree, hsent, hbefore]
  constructor
  · rintro ⟨bs, server', hbs, hserver⟩
    obtain rfl := List.append_cancel_left hbs
    exact (hpython _).mp ⟨server', hserver⟩
  · intro hagree
    obtain ⟨server', hserver⟩ := (hpython _).mpr hagree
    exact ⟨_, server', rfl, hserver⟩

end

section
variable {χ : Type} {S : Nat} {m : BufStore} {key : ActReuseKey} {rs cs : List ActRequest}

theorem Python.Request.frame_ne_nil (r : Python.Request) : r.frame ≠ [] := by
  unfold frame
  exact List.cons_ne_nil _ _

/-- A first frame shows the parameter types, and a missing frame is missed. -/
theorem frames_eq (hkey : key.Sized) (hcs : cs <+: rs) (hne : rs ≠ [])
    (h : (cs.map (ActRequest.frame key)).flatten = (rs.map fun r => (r.call key).frame).flatten) :
    key.pts = ascii "Ljava/lang/String;" ∧ cs = rs := by
  have hlt : key.pts.length < 4294967296 := Nat.lt_trans hkey.pts_lt (by decide)
  obtain ⟨ds, rfl⟩ := hcs
  cases cs with
  | nil =>
    obtain ⟨r, hr⟩ := List.exists_mem_of_ne_nil _ hne
    have hnil : (r.call key).frame = [] :=
      List.flatten_eq_nil_iff.mp h.symm _ (List.mem_map_of_mem hr)
    exact absurd hnil (Python.Request.frame_ne_nil _)
  | cons r cs =>
    have hpts : key.pts = ascii "Ljava/lang/String;" := by
      rw [List.map_cons, List.flatten_cons, List.cons_append, List.map_cons, List.flatten_cons] at h
      exact Python.Request.pts_inj (r.call key) hlt (by decide) h
    have hframe : ActRequest.frame key = fun r => (r.call key).frame := by
      funext r
      rw [ActRequest.frame, hpts]
      rfl
    refine ⟨hpts, ?_⟩
    rw [hframe, List.map_append, List.flatten_append] at h
    have hrest : ((ds.map fun r => (r.call key).frame)).flatten = [] :=
      List.append_cancel_left (h.symm.trans (List.append_nil _).symm)
    cases ds with
    | nil => exact (List.append_nil _).symm
    | cons d ds =>
      rw [List.map_cons, List.flatten_cons, List.append_eq_nil_iff] at hrest
      exact absurd hrest.1 (Python.Request.frame_ne_nil _)

theorem exists_delivers (hS : 3 ≤ S) (hm : m.Wf (toUInt32 S)) (hkey : key.Sized)
    (hrs : ∀ r ∈ rs, r.Sized) (hcap : toUInt32 S < 2147483648) (block : StreamContext)
    (client : DubboClient χ) (context : χ) (uvClose : DubboClient χ → DubboClient χ) :
    ∃ es k, (accepted m block client).Delivers (paReadCbs (paFetch context) uvClose) S
      (actStream key rs) es k := by
  obtain ⟨c, hc, hrun⟩ := raw_key_run hkey block
  apply Link.exists_delivers paReadCbs_implements hS hcap (accepted_good hm block client)
    (accepted_waits m block client)
  intro ps hps
  obtain ⟨s', us', hs⟩ := (rawRequestFraming key).settle_behind hrs hrun.toPiece hc hps
  obtain ⟨client', hfold, _⟩ := DubboClient.foldlM_paFetch _ context client
  exact ⟨_, s', us', client', hs, hfold⟩

/-- With buffers of 65536 bytes, as libuv asks for, or any other size up to 2^28, the provider
agents send the same Dubbo requests for an act stream if and only if it has none, or its parameter
types are the ones pa.py never changes and every field fits into a buffer of pa.cc. -/
theorem provider_agents_agree_iff (hS : 3 ≤ S) (hcap : toUInt32 S ≤ 268435456)
    (hm : m.Wf (toUInt32 S)) (hkey : key.NulFree) (hrs : ∀ r ∈ rs, r.NulFree)
    (block : StreamContext) (client : DubboClient χ) (context : χ)
    (uvClose : DubboClient χ → DubboClient χ) {server : Python.PAServer} {before : Bytes}
    (hbefore : (server.channel key.python).sent = some before) :
    (∃ es k, (accepted m block client).Delivers (paReadCbs (paFetch context) uvClose) S
      (actStream key rs) es k) ∧
    ∀ es k, (accepted m block client).Delivers (paReadCbs (paFetch context) uvClose) S
        (actStream key rs) es k →
      (ProvidersAgree client k.env server key (actStream key rs) ↔
        rs = [] ∨ (key.pts = ascii "Ljava/lang/String;" ∧ key.width ≤ toUInt32 S ∧
          ∀ r ∈ rs, r.width ≤ toUInt32 S)) := by
  have hcap' : toUInt32 S < 2147483648 := by omega
  have hsized : ∀ r ∈ rs, r.Sized := fun r hr => (hrs r hr).toSized
  refine ⟨exists_delivers hS hm hkey.toSized hsized hcap' block client context uvClose, ?_⟩
  intro es k h
  rw [providersAgree_iff hS hm hkey hrs hcap' h hbefore]
  rcases eq_or_ne rs [] with rfl | hne
  · simp
  · have hall := complete_eq_iff hS hm hkey hrs hcap' hne h
    constructor
    · intro hagree
      obtain ⟨hpts, hcs⟩ := frames_eq hkey.toSized (Decoder.complete_isPrefix _ _ _) hne hagree.2
      exact Or.inr ⟨hpts, hall.mp hcs⟩
    · intro hcond
      obtain ⟨hpts, hwidth, hwidths⟩ := hcond.resolve_left hne
      have hcall : ∀ r ∈ rs, (r.under key).python = r.call key := by
        intro r hr
        rw [ActRequest.python_under hkey (hrs r hr), hpts]
        rfl
      rw [hall.mpr ⟨hwidth, hwidths⟩]
      constructor
      · intro r hr
        have hr' := hrs r hr
        have hr'' := hwidths r hr
        have hsized := ActRequest.under_sized hkey.toSized hr'.toSized
        have hlen := hkey.interfaceLen
        have hlen' := hkey.methodLen
        have hlen'' := hkey.ptsLen
        have hplen := hr'.pLen
        have hid := hr'.id.2
        have htotal : dubboTotalLen (r.under key) < 2147483648 := by
          simp only [dubboTotalLen, ActRequest.under]
          unfold ActReuseKey.width at hwidth
          unfold ActRequest.width at hr''
          omega
        have hid' : (r.under key).id = r.id := rfl
        have hencode := hsized.python_encode hr'.id_nonneg (by omega) htotal
        rw [hsized.encode_frame, hcall r hr] at hencode
        exact hencode
      · congr 1
        apply List.map_congr_left
        intro r _
        rw [ActRequest.frame, hpts]
        rfl

end

def sampleKey (pts : Bytes) : ActReuseKey := ⟨ascii "I", 1, ascii "hash", 4, pts, pts.length⟩

theorem sampleKey_nulFree {pts : Bytes} (hlt : pts.length < 2147483648) (hnul : 0 ∉ pts) :
    (sampleKey pts).NulFree := by
  have hinterface : (ascii "I").length < 2147483648 ∧ 0 ∉ ascii "I" := by decide
  have hmethod : (ascii "hash").length < 2147483648 ∧ 0 ∉ ascii "hash" := by decide
  exact ⟨⟨rfl, rfl, rfl, hinterface.1, hmethod.1, hlt⟩, hinterface.2, hmethod.2, hnul⟩

/-- A call of the method that pa.py expects, through the whole theorem. -/
theorem provider_agents_agree_iff_hash :
    let block : StreamContext :=
      ⟨.done, true, .pLen, [], 0, [], 0, [], 0, { id := 0, pLen := 0, parameter := [] }⟩
    let key := sampleKey (ascii "Ljava/lang/String;")
    let stream := actStream key [{ id := 7, pLen := 1, parameter := ascii "a" }]
    ∃ es k, (accepted ⟨[], []⟩ block (DubboClient.create (χ := Unit))).Delivers
        (paReadCbs (paFetch ()) id) 65536 stream es k ∧
      ProvidersAgree DubboClient.create k.env (fun _ => none) key stream := by
  intro block key stream
  have hm := BufStore.wf_empty (toUInt32 (65536 : Nat))
  have hcap : toUInt32 (65536 : Nat) = 65536 := toUInt32_of_lt (by omega)
  have hkey : key.NulFree := sampleKey_nulFree (by decide) (by decide)
  have hwidth : key.width ≤ 65536 := by decide
  have hrs : ∀ r ∈ ([{ id := 7, pLen := 1, parameter := ascii "a" }] : List ActRequest),
      r.NulFree ∧ r.width ≤ 65536 := by
    intro r hr
    obtain rfl := List.mem_singleton.mp hr
    exact ⟨⟨⟨by decide, rfl, by decide⟩, by decide, by decide⟩, by decide⟩
  have hsent : (Python.PAServer.channel (fun _ => none) key.python).sent = some [] := rfl
  obtain ⟨⟨es, k, h⟩, hagree⟩ := provider_agents_agree_iff (S := 65536) (by omega) (by omega) hm
    hkey (fun r hr => (hrs r hr).1) block (DubboClient.create (χ := Unit)) () id hsent
  refine ⟨es, k, h, (hagree es k h).mpr (Or.inr ⟨rfl, ?_, ?_⟩)⟩
  · rw [hcap]
    exact hwidth
  · rw [hcap]
    exact fun r hr => (hrs r hr).2

/-- A method of one `int`: pa.py says that it takes a string. -/
theorem provider_agents_disagree :
    let block : StreamContext :=
      ⟨.done, true, .pLen, [], 0, [], 0, [], 0, { id := 0, pLen := 0, parameter := [] }⟩
    let key := sampleKey (ascii "I")
    let stream := actStream key [{ id := 7, pLen := 1, parameter := ascii "1" }]
    ∃ es k, (accepted ⟨[], []⟩ block (DubboClient.create (χ := Unit))).Delivers
        (paReadCbs (paFetch ()) id) 65536 stream es k ∧
      ¬ ProvidersAgree DubboClient.create k.env (fun _ => none) key stream := by
  intro block key stream
  have hm := BufStore.wf_empty (toUInt32 (65536 : Nat))
  have hcap : toUInt32 (65536 : Nat) = 65536 := toUInt32_of_lt (by omega)
  have hkey : key.NulFree := sampleKey_nulFree (by decide) (by decide)
  have hrs : ∀ r ∈ ([{ id := 7, pLen := 1, parameter := ascii "1" }] : List ActRequest),
      r.NulFree := by
    intro r hr
    obtain rfl := List.mem_singleton.mp hr
    exact ⟨⟨by decide, rfl, by decide⟩, by decide, by decide⟩
  obtain ⟨es, k, h⟩ := exists_delivers (S := 65536) (by omega) hm hkey.toSized
    (fun r hr => (hrs r hr).toSized) (by omega) block DubboClient.create () id
  refine ⟨es, k, h, ?_⟩
  intro hagree
  have hsent : (Python.PAServer.channel (fun _ => none) key.python).sent = some [] := rfl
  have hframes := ((providersAgree_iff (by omega) hm hkey hrs (by omega) h hsent).mp hagree).2
  have hpts := (frames_eq hkey.toSized (Decoder.complete_isPrefix _ _ _) (by simp) hframes).1
  exact absurd hpts (by decide)

end PyAgent
