import PyAgent.Act
import PyAgent.Receive

/-!
# The provider agent's act connections

`on_read` of pa.cc. A connection starts with the key, which the context keeps, and
every request behind it is handed to `dubbo_fetch` together with that key.
-/

namespace PyAgent
set_option autoImplicit false

open Streaming

inductive HeaderState where
  | magic | interfaceLen | interface | methodLen | method | ptsLen | pts | done
  deriving DecidableEq

inductive BodyState where
  | id | pLen | parameter
  deriving DecidableEq

structure StreamContext where
  headerState : HeaderState
  hasHeader : Bool
  bodyState : BodyState
  interface : Bytes
  interfaceLen : Int
  method : Bytes
  methodLen : Int
  pts : Bytes
  ptsLen : Int
  act : ActRequest
  deriving DecidableEq

/-- `x_malloc` returns a block with whatever it held before. -/
def createPaContext (block : StreamContext) : StreamContext :=
  { block with headerState := .magic, bodyState := .id, hasHeader := false }

/-! ## The fields of the header and of a request -/

def headerMagic : Field HeaderState StreamContext DubboRequest where
  tag := .magic
  need _ := 2
  accepts bs := bs.getD 0 0 = 0xab ∧ bs.getD 1 0 = 0xcd
  store c _ := { c with headerState := .interfaceLen }
  accepts_take _ bs := by
    cases bs with
    | nil => rfl
    | cons b bs => cases bs <;> rfl
  store_take _ _ := rfl

namespace StreamContext

def gotInterfaceLen (c : StreamContext) (n : Int) : StreamContext :=
  { c with interfaceLen := n, headerState := .interface }

def gotInterface (c : StreamContext) (s : Bytes) : StreamContext :=
  { c with interface := s, headerState := .methodLen }

def gotMethodLen (c : StreamContext) (n : Int) : StreamContext :=
  { c with methodLen := n, headerState := .method }

def gotMethod (c : StreamContext) (s : Bytes) : StreamContext :=
  { c with method := s, headerState := .ptsLen }

def gotPtsLen (c : StreamContext) (n : Int) : StreamContext :=
  { c with ptsLen := n, headerState := .pts }

def gotPts (c : StreamContext) (s : Bytes) : StreamContext :=
  { c with pts := s, headerState := .done, hasHeader := true }

def gotId (c : StreamContext) (n : Int) : StreamContext :=
  { c with act := { c.act with id := n }, bodyState := .pLen }

def gotPLen (c : StreamContext) (n : Int) : StreamContext :=
  { c with act := { c.act with pLen := n }, bodyState := .parameter }

/-- The request gets the key of the connection along with its parameter. -/
def gotParameter (c : StreamContext) (s : Bytes) : StreamContext :=
  { c with
    bodyState := .id
    act := { c.act with
      parameter := s
      interface := c.interface
      interfaceLen := c.interfaceLen
      method := c.method
      methodLen := c.methodLen
      parameterTypesString := c.pts
      ptsLen := c.ptsLen } }

end StreamContext

def headerFields : List (Field HeaderState StreamContext DubboRequest) :=
  [headerMagic,
    lenField .interfaceLen StreamContext.gotInterfaceLen,
    strField .interface StreamContext.interfaceLen StreamContext.gotInterface,
    lenField .methodLen StreamContext.gotMethodLen,
    strField .method StreamContext.methodLen StreamContext.gotMethod,
    lenField .ptsLen StreamContext.gotPtsLen,
    strField .pts StreamContext.ptsLen StreamContext.gotPts]

def bodyFields : List (Field BodyState StreamContext DubboRequest) :=
  [lenField .id StreamContext.gotId,
    lenField .pLen StreamContext.gotPLen,
    strField .parameter (fun c => c.act.pLen) StreamContext.gotParameter
      fun c => [dubboRequestFromAct c.act]]

section
variable {κ : Type} (dubboFetch : κ → DubboRequest → Option κ)

def onReadBody : Rx StreamContext κ → Flow (Rx StreamContext κ) :=
  seq [guarded (fun l => !l.ctx.hasHeader)
      (seq (headerFields.map (Field.run StreamContext.headerState dubboFetch))),
    guarded (fun l => l.ctx.hasHeader)
      (seq (bodyFields.map (Field.run StreamContext.bodyState dubboFetch)))]

/-- `on_read`; `uv_close` is what an error or the end of the stream leads to. -/
def onRead (uvClose : κ → κ) (nread : Int) (l : Rx StreamContext κ) :
    Option (Exit (Rx StreamContext κ)) :=
  if nread < 0 then some (.done { l with env := uvClose l.env })
  else if 0 < nread then
    loop Rx.more (onReadBody dubboFetch) ((l.arrive nread).passes 10) (l.arrive nread)
  else some (.done l)

end

/-! ## One loop over ten fields -/

def StreamContext.stage (c : StreamContext) : HeaderState ⊕ BodyState :=
  if c.hasHeader then .inr c.bodyState else .inl c.headerState

def actFields : List (Field (HeaderState ⊕ BodyState) StreamContext DubboRequest) :=
  headerFields.map (Field.retag .inl) ++ bodyFields.map (Field.retag .inr)

theorem stage_eq_inl_iff {c : StreamContext} {t : HeaderState} :
    c.stage = .inl t ↔ c.hasHeader = false ∧ c.headerState = t := by
  cases h : c.hasHeader <;> simp [StreamContext.stage, h]

theorem stage_eq_inr_iff {c : StreamContext} {t : BodyState} :
    c.stage = .inr t ↔ c.hasHeader = true ∧ c.bodyState = t := by
  cases h : c.hasHeader <;> simp [StreamContext.stage, h]

theorem actFields_flow : Flows StreamContext.stage actFields actFields := by
  refine ⟨?_, ?_, ?_, ?_, ?_, ?_, ?_, ?_, ?_, ?_, trivial⟩
  case refine_7 =>
    -- the body state may be anything, and every body field comes later
    intro c bs _
    left
    cases h : c.bodyState <;>
      simp [StreamContext.stage, Field.retag, strField, lenField, bodyFields,
        StreamContext.gotPts, h]
  case refine_10 =>
    intro c bs hc
    right
    obtain ⟨hh, _⟩ := stage_eq_inr_iff.mp hc
    refine ⟨(lenField .id StreamContext.gotId).retag .inr, by simp [actFields, bodyFields],
      fun _ => by simp [Field.retag, lenField], ?_⟩
    simp [StreamContext.stage, Field.retag, strField, lenField, StreamContext.gotParameter, hh]
  all_goals
    intro c bs hc
    left
    first
    | obtain ⟨hh, _⟩ := stage_eq_inl_iff.mp hc
      simp [StreamContext.stage, Field.retag, headerMagic, strField, lenField,
        StreamContext.gotInterfaceLen, StreamContext.gotInterface, StreamContext.gotMethodLen,
        StreamContext.gotMethod, StreamContext.gotPtsLen, hh]
    | obtain ⟨hh, _⟩ := stage_eq_inr_iff.mp hc
      simp [StreamContext.stage, Field.retag, lenField, strField, StreamContext.gotId,
        StreamContext.gotPLen, hh]

def actWire : Wire (HeaderState ⊕ BodyState) StreamContext DubboRequest where
  stage := StreamContext.stage
  fields := actFields
  nodup := by decide
  flows := actFields_flow
  plain := by
    simp [actFields, headerFields, bodyFields, Field.retag, Field.Fixed, lenField,
      strField, headerMagic]

section
variable {κ : Type} {dubboFetch : κ → DubboRequest → Option κ}

theorem guarded_run_header (f : Field HeaderState StreamContext DubboRequest) :
    guarded (fun l => !l.ctx.hasHeader) (f.run StreamContext.headerState dubboFetch) =
      (f.retag .inl).run StreamContext.stage dubboFetch := by
  funext l
  cases h : l.ctx.hasHeader with
  | false =>
    by_cases hs : l.ctx.headerState = f.tag
    · simp only [guarded, Field.run, Field.retag, StreamContext.stage, h, hs, if_true,
        Bool.not_false, Bool.false_eq_true, if_false]
      rfl
    · simp [guarded, Field.run, Field.retag, StreamContext.stage, h, hs]
  | true => simp [guarded, Field.run, Field.retag, StreamContext.stage, h]

theorem guarded_run_body (f : Field BodyState StreamContext DubboRequest) :
    guarded (fun l => l.ctx.hasHeader) (f.run StreamContext.bodyState dubboFetch) =
      (f.retag .inr).run StreamContext.stage dubboFetch := by
  funext l
  cases h : l.ctx.hasHeader with
  | false => simp [guarded, Field.run, Field.retag, StreamContext.stage, h]
  | true =>
    by_cases hs : l.ctx.bodyState = f.tag
    · simp only [guarded, Field.run, Field.retag, StreamContext.stage, h, hs, if_true]
      rfl
    · simp [guarded, Field.run, Field.retag, StreamContext.stage, h, hs]

theorem keeps_guard {τ : Type} [DecidableEq τ] {stage : StreamContext → τ}
    {fs : List (Field τ StreamContext DubboRequest)} {v : Bool}
    (hstore : ∀ f ∈ fs.dropLast, ∀ c bs, (f.store c bs).hasHeader = c.hasHeader) :
    ∀ b ∈ (fs.map (Field.run stage dubboFetch)).dropLast, ∀ l l' : Rx StreamContext κ,
      l.ctx.hasHeader = v → b l = .next l' → l'.ctx.hasHeader = v := by
  intro b hb l l' hl hnext
  rw [← List.map_dropLast] at hb
  obtain ⟨f, hf, rfl⟩ := List.mem_map.mp hb
  rcases Field.run_next hnext with h | h
  · rw [h, hl]
  · rw [h, hstore f hf, hl]

theorem onReadBody_eq : onReadBody dubboFetch = body (actWire.stmts dubboFetch) := by
  funext l
  have hheader : guarded (fun l => !l.ctx.hasHeader)
      (seq (headerFields.map (Field.run StreamContext.headerState dubboFetch))) =
      seq (headerFields.map fun f => (f.retag .inl).run StreamContext.stage dubboFetch) := by
    funext m
    rw [guarded_seq, List.map_map]
    · simp only [Function.comp_def, guarded_run_header]
    · intro b hb s s' hs hnext
      simp only [Bool.not_eq_true'] at hs ⊢
      exact keeps_guard (by simp [headerFields, headerMagic, lenField, strField,
        StreamContext.gotInterfaceLen, StreamContext.gotInterface, StreamContext.gotMethodLen,
        StreamContext.gotMethod, StreamContext.gotPtsLen]) b hb s s' hs hnext
  have hbody : guarded (fun l => l.ctx.hasHeader)
      (seq (bodyFields.map (Field.run StreamContext.bodyState dubboFetch))) =
      seq (bodyFields.map fun f => (f.retag .inr).run StreamContext.stage dubboFetch) := by
    funext m
    rw [guarded_seq, List.map_map]
    · simp only [Function.comp_def, guarded_run_body]
    · exact keeps_guard (by simp [bodyFields, lenField, StreamContext.gotId, StreamContext.gotPLen])
  have hstmts : (actWire.stmts dubboFetch).map Stmt.run =
      (headerFields.map fun f => (f.retag .inl).run StreamContext.stage dubboFetch) ++
        bodyFields.map fun f => (f.retag .inr).run StreamContext.stage dubboFetch := by
    simp [Wire.stmts, actWire, actFields, Field.stmt, Function.comp_def]
  rw [onReadBody, hheader, hbody, body, hstmts, seq_append]

variable {uvClose : κ → κ}

def paReadCbs (dubboFetch : κ → DubboRequest → Option κ) (uvClose : κ → κ) :
    ReadCbs StreamContext κ :=
  ⟨pAllocCb, onRead dubboFetch uvClose⟩

theorem paReadCbs_implements : (paReadCbs dubboFetch uvClose).Implements actWire dubboFetch := by
  refine ⟨⟨intRemain, rfl, fun _ _ hb hint => (hb.remain hint).1⟩, ?_⟩
  intro n l
  simp only [paReadCbs, onRead]
  rw [if_neg (by omega)]
  by_cases hn : n = 0
  · right
    rw [if_neg (by omega)]
    exact ⟨hn, rfl⟩
  · left
    rw [if_pos (by omega), onReadBody_eq]
    rfl

end

/-! ## Keys and requests on the wire -/

/-- A context between two requests of a connection with this key. -/
structure StreamContext.Holds (key : ActReuseKey) (c : StreamContext) : Prop where
  stage : c.stage = .inr .id
  interface : c.interface = nulPadded key.interface
  interfaceLen : c.interfaceLen = key.interfaceLen
  method : c.method = nulPadded key.method
  methodLen : c.methodLen = key.methodLen
  pts : c.pts = nulPadded key.pts
  ptsLen : c.ptsLen = key.ptsLen

/-- The Dubbo request an act request stands for. -/
def ActRequest.under (request : ActRequest) (key : ActReuseKey) : DubboRequest where
  id := request.id
  interfaceName := nulPadded key.interface
  interfaceLen := key.interfaceLen
  methodName := nulPadded key.method
  methodLen := key.methodLen
  dubboVersion := ascii "2.0.1"
  dubboVersionLen := 5
  parameterTypesString := nulPadded key.pts
  ptsLen := key.ptsLen
  args := nulPadded request.parameter
  argsLen := request.pLen
  twoWay := 1

theorem mem_actFields_header {f : Field HeaderState StreamContext DubboRequest}
    (h : f ∈ headerFields) : f.retag .inl ∈ actWire.fields :=
  List.mem_append_left _ (List.mem_map_of_mem h)

theorem mem_actFields_body {f : Field BodyState StreamContext DubboRequest}
    (h : f ∈ bodyFields) : f.retag .inr ∈ actWire.fields :=
  List.mem_append_right _ (List.mem_map_of_mem h)

theorem header_string {t t' : HeaderState} (setLen : StreamContext → Int → StreamContext)
    (len : StreamContext → Int) (set : StreamContext → Bytes → StreamContext) {c : StreamContext}
    (hf : lenField t setLen ∈ headerFields) (hg : strField t' len set ∈ headerFields)
    (hs : c.stage = .inl t) (hs' : ∀ n, (setLen c n).stage = .inl t')
    (hlen : ∀ n, len (setLen c n) = n) {src : Bytes} {n : Int} (hn : n = src.length)
    (hlt : src.length < 2147483648) :
    actWire.decoder.Run c (writeInt n ++ src) [] (max 4 src.length)
      (set (setLen c n) (nulPadded src)) :=
  sized_run setLen len set (fun _ => []) (mem_actFields_header hf) (mem_actFields_header hg) hs
    hs' hlen hn ⟨by omega, by omega⟩

open StreamContext in
theorem raw_key_run {key : ActReuseKey} (hkey : key.Sized) (block : StreamContext) :
    ∃ c, c.Holds key ∧ actWire.decoder.Run (createPaContext block) key.raw [] key.width c := by
  let c₀ := createPaContext block
  let c₁ := headerMagic.store c₀ [0xab, 0xcd]
  let c₂ := (c₁.gotInterfaceLen key.interfaceLen).gotInterface (nulPadded key.interface)
  let c₃ := (c₂.gotMethodLen key.methodLen).gotMethod (nulPadded key.method)
  let c₄ := (c₃.gotPtsLen key.ptsLen).gotPts (nulPadded key.pts)
  have hmagic : actWire.decoder.Run c₀ [0xab, 0xcd] [] 2 c₁ :=
    Wire.field_run (mem_actFields_header (f := headerMagic) (by simp [headerFields])) rfl _ rfl rfl
  have hinterface : actWire.decoder.Run c₁ (writeInt key.interfaceLen ++ key.interface) []
      (max 4 key.interface.length) c₂ :=
    header_string gotInterfaceLen interfaceLen gotInterface (by simp [headerFields])
      (by simp [headerFields]) (show c₁.stage = .inl .interfaceLen from rfl) (fun _ => rfl)
      (fun _ => rfl) hkey.interfaceLen hkey.interface_lt
  have hmethod : actWire.decoder.Run c₂ (writeInt key.methodLen ++ key.method) []
      (max 4 key.method.length) c₃ :=
    header_string gotMethodLen methodLen gotMethod (by simp [headerFields])
      (by simp [headerFields]) (show c₂.stage = .inl .methodLen from rfl) (fun _ => rfl)
      (fun _ => rfl) hkey.methodLen hkey.method_lt
  have hpts : actWire.decoder.Run c₃ (writeInt key.ptsLen ++ key.pts) []
      (max 4 key.pts.length) c₄ :=
    header_string gotPtsLen ptsLen gotPts (by simp [headerFields])
      (by simp [headerFields]) (show c₃.stage = .inl .ptsLen from rfl) (fun _ => rfl)
      (fun _ => rfl) hkey.ptsLen hkey.pts_lt
  have h := ((hmagic.append hinterface).append hmethod).append hpts
  have hwidth : max (max (max 2 (max 4 key.interface.length)) (max 4 key.method.length))
      (max 4 key.pts.length) = key.width := by
    unfold ActReuseKey.width
    omega
  rw [hwidth] at h
  refine ⟨c₄, ⟨rfl, rfl, rfl, rfl, rfl, rfl, rfl⟩, ?_⟩
  simpa only [ActReuseKey.raw, List.append_assoc] using h

open StreamContext in
theorem raw_request_run {key : ActReuseKey} {c : StreamContext} (hc : c.Holds key)
    {request : ActRequest} (hr : request.Sized) :
    ∃ c', c'.Holds key ∧
      actWire.decoder.Run c request.raw [request.under key] request.width c' := by
  obtain ⟨hh, _⟩ := stage_eq_inr_iff.mp hc.stage
  have hid : actWire.decoder.Run c (writeInt request.id) [] 4 (c.gotId request.id) :=
    lenField_run gotId (mem_actFields_body (f := lenField .id gotId) (by simp [bodyFields]))
      hc.stage hr.id
  have hstage : (c.gotId request.id).stage = .inr .pLen := stage_eq_inr_iff.mpr ⟨hh, rfl⟩
  have hlt := hr.parameter_lt
  have hlen := hr.pLen
  have hparameter := sized_run gotPLen (fun c => c.act.pLen) gotParameter
    (fun c => [dubboRequestFromAct c.act])
    (mem_actFields_body (f := lenField .pLen gotPLen) (by simp [bodyFields]))
    (mem_actFields_body (f := strField .parameter (fun c => c.act.pLen) gotParameter
      fun c => [dubboRequestFromAct c.act]) (by simp [bodyFields]))
    hstage (fun n => stage_eq_inr_iff.mpr ⟨hh, rfl⟩) (fun _ => rfl) hlen ⟨by omega, by omega⟩
  let c' := ((c.gotId request.id).gotPLen request.pLen).gotParameter (nulPadded request.parameter)
  have hout : [dubboRequestFromAct c'.act] = [request.under key] := by
    simp only [c', gotParameter, gotPLen, gotId, dubboRequestFromAct, ActRequest.under,
      hc.interface, hc.interfaceLen, hc.method, hc.methodLen, hc.pts, hc.ptsLen]
  refine ⟨c', ⟨stage_eq_inr_iff.mpr ⟨hh, rfl⟩, hc.interface, hc.interfaceLen, hc.method,
    hc.methodLen, hc.pts, hc.ptsLen⟩, ?_⟩
  have h := hid.append hparameter
  have hwidth : max 4 (max 4 request.parameter.length) = request.width := by
    unfold ActRequest.width
    omega
  rw [hout, hwidth] at h
  simpa only [ActRequest.raw, List.append_assoc] using h

theorem raw_request_width (key : ActReuseKey) (c : StreamContext) (r : ActRequest)
    (hc : c.Holds key) (hr : r.Sized) :
    ∃ c', StreamContext.Holds key c' ∧ actWire.decoder.Width c r.raw r.width c' := by
  obtain ⟨c', hc', hrun⟩ := raw_request_run hc hr
  exact ⟨c', hc', hrun.width⟩

theorem StreamContext.Holds.need_pos {key : ActReuseKey} {c : StreamContext} (hc : c.Holds key) :
    0 < actWire.decoder.need c := by
  rw [Wire.need_eq (mem_actFields_body (f := lenField .id StreamContext.gotId)
    (by simp [bodyFields])) hc.stage]
  exact Nat.zero_lt_succ 3

def rawRequestFraming (key : ActReuseKey) : actWire.decoder.Framing ActRequest where
  enc := ActRequest.raw
  out request := request.under key
  good := ActRequest.Sized
  between := StreamContext.Holds key
  enc_pos := ActRequest.raw_pos
  need_pos _ hc := hc.need_pos
  piece _ _ hc hr := by
    obtain ⟨c', hc', hrun⟩ := raw_request_run hc hr
    exact ⟨c', hc', hrun.toPiece⟩

/-- Copying a field twice is copying it once. -/
theorem StreamContext.Holds.of_padded {key : ActReuseKey} {c : StreamContext}
    (hc : c.Holds key.padded) : c.Holds key := by
  refine ⟨hc.stage, ?_, hc.interfaceLen, ?_, hc.methodLen, ?_, hc.ptsLen⟩
  · exact hc.interface.trans (nulPadded_nulPadded _)
  · exact hc.method.trans (nulPadded_nulPadded _)
  · exact hc.pts.trans (nulPadded_nulPadded _)

theorem ActRequest.padded_under (request : ActRequest) (key : ActReuseKey) :
    request.padded.under key = request.under key := by
  simp only [ActRequest.under, ActRequest.padded, nulPadded_nulPadded]

theorem key_piece {key : ActReuseKey} (hkey : key.Wf) (block : StreamContext) :
    ∃ c, c.Holds key ∧ actWire.decoder.Piece (createPaContext block) (paEncodeActKey key) [] c := by
  obtain ⟨c, hc, hrun⟩ := raw_key_run hkey.padded block
  rw [hkey.encode_eq]
  exact ⟨c, hc.of_padded, hrun.toPiece⟩

theorem request_piece {key : ActReuseKey} {c : StreamContext} (hc : c.Holds key)
    {request : ActRequest} (hr : request.Wf) :
    ∃ c', c'.Holds key ∧
      actWire.decoder.Piece c (paActRequestEncode request) [request.under key] c' := by
  obtain ⟨c', hc', hrun⟩ := raw_request_run hc hr.padded
  rw [request.padded_under key] at hrun
  rw [hr.encode_eq]
  exact ⟨c', hc', hrun.toPiece⟩

def requestFraming (key : ActReuseKey) : actWire.decoder.Framing ActRequest where
  enc := paActRequestEncode
  out request := request.under key
  good := ActRequest.Wf
  between := StreamContext.Holds key
  enc_pos := paActRequestEncode_pos
  need_pos _ hc := hc.need_pos
  piece _ _ hc hr := request_piece hc hr

/-! ## The request path -/

/-- A connection `on_conn` has just accepted; its server may have buffers already. -/
def accepted {κ : Type} (m : BufStore) (block : StreamContext) (env : κ) : Link StreamContext κ :=
  ⟨m, none, createPaContext block, env⟩

theorem accepted_good {κ : Type} {m : BufStore} {cap : Nat} (hm : m.Wf cap) (block : StreamContext)
    (env : κ) : (accepted m block env).Good actWire cap :=
  ⟨hm, by simp [accepted], headerMagic.retag .inl,
    mem_actFields_header (by simp [headerFields]), rfl⟩

theorem accepted_waits {κ : Type} (m : BufStore) (block : StreamContext) (env : κ) :
    actWire.decoder.Waits (accepted m block env).ctx (accepted m block env).unread := by
  have hmagic : headerMagic.retag .inl ∈ actWire.fields :=
    mem_actFields_header (by simp [headerFields])
  unfold Decoder.Waits
  rw [Wire.need_eq hmagic rfl]
  exact Nat.zero_lt_succ 1

def logFetch (log : List DubboRequest) (request : DubboRequest) : Option (List DubboRequest) :=
  some (log ++ [request])

theorem foldlM_logFetch (rs log : List DubboRequest) :
    rs.foldlM logFetch log = some (log ++ rs) := by
  induction rs generalizing log with
  | nil => simp
  | cons r rs ih =>
    rw [List.foldlM_cons, logFetch, Option.bind_eq_bind, Option.bind_some, ih]
    simp

/-- However the bytes behind a key are cut into reads of at most the room offered, `dubbo_fetch` is
called for the requests that are complete, in order, and every read callback comes back. -/
def RequestPath (S : Nat) : Prop :=
  ∀ (m : BufStore) (block : StreamContext) (key : ActReuseKey) (rs : List ActRequest)
    (es : List (Nat × Bytes)), m.Wf (toUInt32 S) → key.Wf → (∀ r ∈ rs, r.Wf) →
    (accepted m block []).fits (paReadCbs logFetch id) S es = true →
    (es.map Prod.snd).flatten <+: paEncodeActKey key ++ (rs.map paActRequestEncode).flatten →
    ∃ k, (accepted m block []).run (paReadCbs logFetch id) S es = some k ∧
      k.env = (Decoder.complete paActRequestEncode rs
        ((es.map Prod.snd).flatten.length - (paEncodeActKey key).length)).map (·.under key)

theorem request_path {S : Nat} (hS : 3 ≤ S) (hcap : toUInt32 S < 2147483648) : RequestPath S := by
  intro m block key rs es hm hkey hrs hfits hstarts
  obtain ⟨c, hc, hpiece⟩ := key_piece hkey block
  have hsettles : ∀ ps, ps <+: paEncodeActKey key ++ (rs.map paActRequestEncode).flatten →
      ∃ s' us', actWire.decoder.Settles (createPaContext block) ps
        ((Decoder.complete paActRequestEncode rs (ps.length - (paEncodeActKey key).length)).map
          (·.under key)) s' us' := by
    intro ps hps
    exact (requestFraming key).settle_behind hrs hpiece hc hps
  have hlogged : ∀ ps, ps <+: (es.map Prod.snd).flatten → ∃ os s' us' log,
      actWire.decoder.Settles (createPaContext block) ps os s' us' ∧
        os.foldlM logFetch [] = some log := by
    intro ps hps
    obtain ⟨s', us', h⟩ := hsettles ps (hps.trans hstarts)
    exact ⟨_, s', us', _, h, foldlM_logFetch _ _⟩
  obtain ⟨k, os, hrun, _, hs, henv⟩ := Link.run_settles paReadCbs_implements hS hcap
    (accepted_good hm block []) (accepted_waits m block []) hfits hlogged
  obtain ⟨s', us', h⟩ := hsettles _ hstarts
  obtain ⟨rfl, _, _⟩ := hs.unique h
  refine ⟨k, hrun, ?_⟩
  rw [foldlM_logFetch] at henv
  exact (Option.some.inj henv).symm

/-- A key and two requests in three reads, the last of which ends inside the second request. -/
theorem request_path_three_reads :
    let block : StreamContext :=
      ⟨.done, true, .pLen, [], 0, [], 0, [], 0, { id := 0, pLen := 0, parameter := [] }⟩
    ∃ k, (accepted ⟨[], []⟩ block []).run (paReadCbs logFetch id) 65536
        [(0, [0xab]), (0, [0xcd, 0, 0, 0, 1, 73, 0, 0, 0, 0, 0, 0, 0, 1, 83, 0, 0, 0]),
          (0, [7, 0, 0, 0, 2, 0, 0, 0, 0, 0, 8, 0])] = some k ∧
      k.env.map (fun r => (r.id, r.interfaceName, r.methodName, r.args)) =
        [(7, [73], [], [0, 0])] := by
  let requests : List ActRequest :=
    [{ id := 7, pLen := 2, parameter := [0, 80] }, { id := 8, pLen := 0, parameter := [] }]
  have hrequests : ∀ r ∈ requests, r.Wf := by
    intro r hr
    simp only [requests, List.mem_cons, List.not_mem_nil, or_false] at hr
    rcases hr with rfl | rfl
    · exact ⟨by decide, rfl, by decide⟩
    · exact ⟨by decide, rfl, by decide⟩
  obtain ⟨k, hk, henv⟩ := request_path (S := 65536) (by decide) (by decide) ⟨[], []⟩
    ⟨.done, true, .pLen, [], 0, [], 0, [], 0, { id := 0, pLen := 0, parameter := [] }⟩
    ⟨[73], 1, [], 0, [83], 1⟩ requests
    [(0, [0xab]), (0, [0xcd, 0, 0, 0, 1, 73, 0, 0, 0, 0, 0, 0, 0, 1, 83, 0, 0, 0]),
      (0, [7, 0, 0, 0, 2, 0, 0, 0, 0, 0, 8, 0])]
    (BufStore.wf_empty _) ⟨rfl, rfl, rfl, by decide⟩ hrequests
    (by decide) (by decide)
  exact ⟨k, hk, by rw [henv]; decide⟩

theorem request_path_overflow : ¬ RequestPath 2147483648 := by
  intro h
  obtain ⟨p, hp⟩ : ∃ p : Bytes, p.length = 2147483626 :=
    ⟨List.replicate 2147483626 1, List.length_replicate⟩
  let block : StreamContext :=
    ⟨.magic, false, .id, [], 0, [], 0, [], 0, { id := 0, pLen := 0, parameter := [] }⟩
  let key : ActReuseKey := ⟨[], 0, [], 0, [], 0⟩
  let request : ActRequest := { id := 0, pLen := 2147483626, parameter := p }
  have hkey : key.Wf := ⟨rfl, rfl, rfl, by decide⟩
  have hrequest : request.Wf :=
    ⟨⟨by simp [request], by simp [request]⟩, by simp [request, hp], by simp [request]⟩
  have hkeylen : (paEncodeActKey key).length = 14 := rfl
  have hlen := hrequest.encode_length
  let stream := paEncodeActKey key ++ paActRequestEncode request
  have hstream : stream.length = 2147483648 := by
    simp only [stream, List.length_append, hkeylen]
    simp only [request] at hlen ⊢
    omega
  obtain ⟨k, hk, henv⟩ := Link.complete_overflow paReadCbs_implements (createPaContext block)
    ([] : List DubboRequest) hstream
  have hroom : (accepted ⟨[], []⟩ block ([] : List DubboRequest)).room (paReadCbs logFetch id)
      2147483648 0 = some 2147483648 := rfl
  obtain ⟨k', hk', henv'⟩ := h ⟨[], []⟩ block key [request] [(0, stream)]
    (BufStore.wf_empty _) hkey (by simpa using hrequest)
    (by simp [Link.fits, hroom, hstream]) (by simp [stream])
  have hread : (accepted ⟨[], []⟩ block ([] : List DubboRequest)).complete (paReadCbs logFetch id)
      2147483648 0 stream = some k := hk
  have hkk : k = k' := by simpa [Link.run, hread] using hk'
  subst hkk
  have hall : Decoder.complete paActRequestEncode [request] (stream.length - 14) = [request] := by
    apply Decoder.complete_all
    simp only [List.map_cons, List.map_nil, List.flatten_cons, List.flatten_nil, List.append_nil,
      hstream]
    simp only [request] at hlen ⊢
    omega
  simp only [List.map_cons, List.map_nil, List.flatten_cons, List.flatten_nil, List.append_nil,
    hkeylen, hall, henv] at henv'
  cases henv'

end PyAgent
