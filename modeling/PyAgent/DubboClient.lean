import PyAgent.Act
import PyAgent.Exchange

/-!
# The Dubbo client

dubbo_client.cc: requests are queued until the connection is up, and each response
is handed to the callback that its id finds. The callback is always
`_dubbo_callback` of pa.cc, which writes an act response to the channel of the
context.
-/

namespace PyAgent
set_option autoImplicit false

open Streaming

def quotedLine (field : Bytes) (len : Int) : Bytes :=
  ascii "\"" ++ field.take len.toNat ++ ascii "\"\n"

def dubboRequestEncode (request : DubboRequest) : Bytes :=
  let attachment := ascii
    "\x7b\"path\":\"com.alibaba.dubbo.performance.demo.provider.IHelloService\"\x7d\n"
  let totalLen := 4 + 8 + 4 + (request.dubboVersionLen + 1) + (request.interfaceLen + 1) + 5 +
    (request.ptsLen + 1) + (request.argsLen + 1) + 69 + 10 + (request.methodLen + 1)
  [0xda, 0xbb, 0xc6, 0x00] ++ writeLL request.id ++ writeInt (totalLen - 16) ++
    quotedLine request.dubboVersion request.dubboVersionLen ++
    quotedLine request.interfaceName request.interfaceLen ++
    ascii "null\n" ++
    quotedLine request.methodName request.methodLen ++
    quotedLine request.parameterTypesString request.ptsLen ++
    quotedLine request.args request.argsLen ++ attachment

/-- The functions `dubbo_fetch` is ever given. -/
inductive DubboCallback where
  | dubboCallback
  deriving DecidableEq

/-- What `_d_read_cb` keeps from one call to the next; the values of `read_state` count from 0. -/
inductive DubboReadState where
  | magic | id | dataLen | result
  deriving DecidableEq

structure DubboReader where
  readState : DubboReadState
  dubboResp : DubboResponse
  deriving DecidableEq

/-- The rest of `dubbo_client`, what has been written to the provider, and the act responses that
have been written to the channels of contexts. -/
structure DubboClient (χ : Type) where
  connected : Bool
  queue : List DubboRequest
  cbs : Int → Option DubboCallback
  contexts : Int → Option χ
  socket : Bytes
  channels : List (χ × Bytes)

/-- `_dubbo_callback`: one `uv_write` of `act_response_data_length` bytes to the channel. -/
def dubboCallback {χ : Type} (resp : DubboResponse) (context : χ) : χ × Bytes :=
  (context, encodeActResponse (actResponseFromDubbo resp))

namespace DubboClient
variable {χ : Type}

def create : DubboClient χ := ⟨false, [], fun _ => none, fun _ => none, [], []⟩

def handleQueue (client : DubboClient χ) : DubboClient χ :=
  if client.connected then
    { client with
      socket := client.socket ++ (client.queue.map dubboRequestEncode).flatten
      queue := [] }
  else client

def onConnect (client : DubboClient χ) (status : Int) : DubboClient χ :=
  if status < 0 then client else handleQueue { client with connected := true }

def dubboFetch (request : DubboRequest) (cb : DubboCallback) (context : χ)
    (client : DubboClient χ) : DubboClient χ :=
  handleQueue { client with
    queue := client.queue ++ [request]
    cbs := Function.update client.cbs request.id (some cb)
    contexts := Function.update client.contexts request.id (some context) }

/-- The end of `_d_read_cb`'s loop body: the callback is called and forgotten. An id that is not in
the maps gives a null function, which cannot be called, and a null context, which cannot be read. -/
def answer (client : DubboClient χ) (resp : DubboResponse) : Option (DubboClient χ) :=
  match client.cbs resp.id, client.contexts resp.id with
  | some .dubboCallback, some context => some { client with
      channels := client.channels ++ [dubboCallback resp context]
      cbs := Function.update client.cbs resp.id none
      contexts := Function.update client.contexts resp.id none }
  | _, _ => none

@[simp] theorem handleQueue_cbs (client : DubboClient χ) : client.handleQueue.cbs = client.cbs := by
  unfold handleQueue
  split <;> rfl

@[simp] theorem handleQueue_contexts (client : DubboClient χ) :
    client.handleQueue.contexts = client.contexts := by
  unfold handleQueue
  split <;> rfl

@[simp] theorem handleQueue_channels (client : DubboClient χ) :
    client.handleQueue.channels = client.channels := by
  unfold handleQueue
  split <;> rfl

theorem answer_of_some {client : DubboClient χ} {resp : DubboResponse} {context : χ}
    (hcb : client.cbs resp.id = some .dubboCallback)
    (hcontext : client.contexts resp.id = some context) :
    client.answer resp = some { client with
      channels := client.channels ++ [dubboCallback resp context]
      cbs := Function.update client.cbs resp.id none
      contexts := Function.update client.contexts resp.id none } := by
  simp only [answer, hcb, hcontext]

/-- A call with this id is waiting for its answer. -/
def Knows (client : DubboClient χ) (id : Int) : Prop :=
  (client.cbs id).isSome ∧ (client.contexts id).isSome

theorem answer_unknown {client : DubboClient χ} {resp : DubboResponse}
    (h : ¬ client.Knows resp.id) : client.answer resp = none := by
  unfold answer
  split
  · rename_i hcb hcontext
    exact absurd ⟨by rw [hcb]; rfl, by rw [hcontext]; rfl⟩ h
  · rfl

theorem answer_known {client : DubboClient χ} {resp : DubboResponse}
    (h : client.Knows resp.id) : ∃ client', client.answer resp = some client' ∧
      ∀ id, client'.Knows id ↔ id ≠ resp.id ∧ client.Knows id := by
  obtain ⟨cb, hcb⟩ := Option.isSome_iff_exists.mp h.1
  obtain ⟨context, hcontext⟩ := Option.isSome_iff_exists.mp h.2
  refine ⟨_, answer_of_some hcb hcontext, ?_⟩
  intro id
  by_cases hid : id = resp.id
  · simp [Knows, hid]
  · simp [Knows, hid]

end DubboClient

/-! ## The read loop -/

namespace DubboReader

def gotMagic (c : DubboReader) : DubboReader := { c with readState := .id }

def gotId (c : DubboReader) (n : Int) : DubboReader :=
  { c with dubboResp := { c.dubboResp with id := n }, readState := .dataLen }

def gotDataLen (c : DubboReader) (n : Int) : DubboReader :=
  { c with dubboResp := { c.dubboResp with dataLen := n }, readState := .result }

def gotResult (c : DubboReader) (s : Bytes) : DubboReader :=
  { c with dubboResp := { c.dubboResp with result := s }, readState := .magic }

end DubboReader

/-- Two bytes of magic; the flag and status bytes behind them are skipped. -/
def dubboMagic : Field DubboReadState DubboReader DubboResponse where
  tag := .magic
  need _ := 4
  accepts bs := bs.getD 0 0 = 0xda ∧ bs.getD 1 0 = 0xbb
  store c _ := c.gotMagic
  accepts_take _ bs := by
    cases bs with
    | nil => rfl
    | cons b bs => cases bs <;> rfl
  store_take _ _ := rfl

def dubboId : Field DubboReadState DubboReader DubboResponse where
  tag := .id
  need _ := 8
  store c bs := c.gotId (bytes2ll bs)
  store_take c bs := by
    have height : (8 : Int).toNat = 8 := rfl
    rw [height, bytes2ll_take bs]

def dubboFields : List (Field DubboReadState DubboReader DubboResponse) :=
  [dubboMagic, dubboId,
    lenField .dataLen DubboReader.gotDataLen,
    strField .result (fun c => c.dubboResp.dataLen) DubboReader.gotResult fun c => [c.dubboResp]]

def dReadBody {χ : Type} : Rx DubboReader (DubboClient χ) → Flow (Rx DubboReader (DubboClient χ)) :=
  seq (dubboFields.map (Field.run DubboReader.readState DubboClient.answer))

def dReadCb {χ : Type} (nread : Int) (l : Rx DubboReader (DubboClient χ)) :
    Option (Exit (Rx DubboReader (DubboClient χ))) :=
  if nread < 0 then some (.done l)
  else loop Rx.more dReadBody ((l.arrive nread).passes 4) (l.arrive nread)

def dubboReadCbs (χ : Type) : ReadCbs DubboReader (DubboClient χ) := ⟨dAllocCb, dReadCb⟩

def dubboWire : Wire DubboReadState DubboReader DubboResponse where
  stage := DubboReader.readState
  fields := dubboFields
  nodup := by decide
  flows := by
    refine ⟨?_, ?_, ?_, ?_, trivial⟩
    · intro c bs _
      exact Or.inl (by simp [dubboMagic, dubboId, DubboReader.gotMagic])
    · intro c bs _
      exact Or.inl (by simp [dubboId, lenField, DubboReader.gotId])
    · intro c bs _
      exact Or.inl (by simp [lenField, strField, DubboReader.gotDataLen])
    · intro c bs _
      exact Or.inr ⟨dubboMagic, by simp [dubboFields], fun _ => by simp [dubboMagic], rfl⟩
  plain := by
    simp [dubboFields, Field.Fixed, lenField, strField, dubboMagic, dubboId]

theorem dReadBody_eq (χ : Type) :
    (dReadBody : Rx DubboReader (DubboClient χ) → _) =
      body (dubboWire.stmts DubboClient.answer) := by
  simp [dReadBody, body, Wire.stmts, dubboWire, Field.stmt, Function.comp_def]

theorem dubboReadCbs_implements (χ : Type) :
    (dubboReadCbs χ).Implements dubboWire DubboClient.answer := by
  refine ⟨⟨intRemain, rfl, fun _ _ hb hint => (hb.remain hint).1⟩, ?_⟩
  intro n l
  left
  simp only [dubboReadCbs, dReadCb]
  rw [if_neg (by omega), dReadBody_eq]
  rfl

/-- The connection of a client, before anything has been read from it. -/
def dubboLink {χ : Type} (m : BufStore) (resp : DubboResponse) (client : DubboClient χ) :
    Link DubboReader (DubboClient χ) :=
  ⟨m, none, ⟨.magic, resp⟩, client⟩

theorem dubboLink_good {χ : Type} {m : BufStore} {cap : Nat} (hm : m.Wf cap) (resp : DubboResponse)
    (client : DubboClient χ) : (dubboLink m resp client).Good dubboWire cap :=
  ⟨hm, by simp [dubboLink], dubboMagic, by simp [dubboWire, dubboFields], rfl⟩

/-! ## Responses on the wire -/

/-- Any frame: the flag bytes and the eight bytes of the id are whatever the provider puts there. -/
structure RawDubboFrame where
  flags : UInt8 × UInt8
  idBytes : Bytes
  payload : Bytes
  deriving DecidableEq

namespace RawDubboFrame

def encode (f : RawDubboFrame) : Bytes :=
  [0xda, 0xbb, f.flags.1, f.flags.2] ++ f.idBytes ++ writeInt f.payload.length ++ f.payload

structure Wf (f : RawDubboFrame) : Prop where
  id_length : f.idBytes.length = 8
  payload_lt : f.payload.length < 2147483648

theorem encode_pos (f : RawDubboFrame) : 0 < f.encode.length := by
  simp only [encode, List.length_append, List.length_cons]
  omega

/-- The longest field, in bytes. -/
def width (f : RawDubboFrame) : Nat := max 8 f.payload.length

def response (f : RawDubboFrame) : DubboResponse :=
  ⟨bytes2ll f.idBytes, f.payload.length, nulPadded f.payload⟩

end RawDubboFrame

theorem DubboReader.raw_run {c : DubboReader} (hc : c.readState = .magic) {f : RawDubboFrame}
    (hf : f.Wf) : ∃ c', c'.readState = .magic ∧
      dubboWire.decoder.Run c f.encode [f.response] f.width c' := by
  let c₁ := c.gotMagic
  let c₂ := c₁.gotId (bytes2ll f.idBytes)
  let c₃ := (c₂.gotDataLen f.payload.length).gotResult (nulPadded f.payload)
  have hmagic : dubboWire.decoder.Run c [0xda, 0xbb, f.flags.1, f.flags.2] [] 4 c₁ :=
    Wire.field_run (W := dubboWire) (f := dubboMagic) (by simp [dubboWire, dubboFields]) hc _ rfl
      rfl
  have height := hf.id_length
  have hlen : dubboId.need c₁ = f.idBytes.length := by
    rw [height]
    rfl
  have hid : dubboWire.decoder.Run c₁ f.idBytes [] f.idBytes.length c₂ :=
    Wire.field_run (W := dubboWire) (f := dubboId) (by simp [dubboWire, dubboFields])
      (show dubboWire.stage c₁ = .id from rfl) _ hlen rfl
  have hlt := hf.payload_lt
  have hpayload : IsInt32 f.payload.length := ⟨by omega, by omega⟩
  have hresult : dubboWire.decoder.Run c₂ (writeInt f.payload.length ++ f.payload)
      [f.response] (max 4 f.payload.length) c₃ :=
    sized_run gotDataLen (fun c => c.dubboResp.dataLen) gotResult (fun c => [c.dubboResp])
      (by simp [dubboWire, dubboFields]) (by simp [dubboWire, dubboFields])
      (show dubboWire.stage c₂ = .dataLen from rfl) (fun _ => rfl) (fun _ => rfl) rfl hpayload
  have h := (hmagic.append hid).append hresult
  have hwidth : max (max 4 f.idBytes.length) (max 4 f.payload.length) = f.width := by
    unfold RawDubboFrame.width
    omega
  rw [hwidth] at h
  refine ⟨c₃, rfl, ?_⟩
  simpa only [RawDubboFrame.encode, List.append_assoc] using h

theorem DubboReader.raw_piece {c : DubboReader} (hc : c.readState = .magic) {f : RawDubboFrame}
    (hf : f.Wf) : ∃ c', c'.readState = .magic ∧
      dubboWire.decoder.Piece c f.encode [f.response] c' := by
  obtain ⟨c', hc', hrun⟩ := DubboReader.raw_run hc hf
  exact ⟨c', hc', hrun.toPiece⟩

def rawFraming : dubboWire.decoder.Framing RawDubboFrame where
  enc := RawDubboFrame.encode
  out := RawDubboFrame.response
  good := RawDubboFrame.Wf
  between c := c.readState = .magic
  enc_pos := RawDubboFrame.encode_pos
  need_pos c hc := by
    have hmagic : dubboMagic ∈ dubboWire.fields := by simp [dubboWire, dubboFields]
    rw [Wire.need_eq hmagic hc]
    exact Nat.zero_lt_succ 3
  piece _ _ hc hf := DubboReader.raw_piece hc hf

structure DubboFrame where
  flags : UInt8 × UInt8
  id : Int
  payload : Bytes
  deriving DecidableEq

namespace DubboFrame

def encode (f : DubboFrame) : Bytes :=
  [0xda, 0xbb, f.flags.1, f.flags.2] ++ writeLL f.id ++ writeInt f.payload.length ++ f.payload

structure Wf (f : DubboFrame) : Prop where
  id_nonneg : 0 ≤ f.id
  id_lt : f.id < 2147483648
  length_lt : f.encode.length < 2147483648

theorem encode_length (f : DubboFrame) : f.encode.length = 16 + f.payload.length := by
  simp only [encode, List.length_append, List.length_cons, List.length_nil, writeLL_length,
    writeInt_length]

def response (f : DubboFrame) : DubboResponse := ⟨f.id, f.payload.length, nulPadded f.payload⟩

def raw (f : DubboFrame) : RawDubboFrame := ⟨f.flags, writeLL f.id, f.payload⟩

theorem Wf.length_isInt32 {f : DubboFrame} (hf : f.Wf) : IsInt32 f.payload.length := by
  have := hf.length_lt
  rw [encode_length] at this
  exact ⟨by omega, by omega⟩

theorem Wf.raw {f : DubboFrame} (hf : f.Wf) : f.raw.Wf := by
  have := hf.length_isInt32
  exact ⟨rfl, by unfold IsInt32 at this; simp only [DubboFrame.raw]; omega⟩

theorem Wf.raw_response {f : DubboFrame} (hf : f.Wf) : f.raw.response = f.response := by
  simp only [RawDubboFrame.response, DubboFrame.raw, response,
    bytes2ll_writeLL hf.id_nonneg hf.id_lt]

end DubboFrame

theorem DubboReader.piece {c : DubboReader} (hc : c.readState = .magic) {f : DubboFrame}
    (hf : f.Wf) : ∃ c', c'.readState = .magic ∧
      dubboWire.decoder.Piece c f.encode [f.response] c' := by
  rw [← hf.raw_response]
  exact DubboReader.raw_piece hc hf.raw

def dubboFraming : dubboWire.decoder.Framing DubboFrame where
  enc := DubboFrame.encode
  out := DubboFrame.response
  good := DubboFrame.Wf
  between c := c.readState = .magic
  enc_pos f := by
    rw [DubboFrame.encode_length]
    omega
  need_pos c hc := by
    have hmagic : dubboMagic ∈ dubboWire.fields := by simp [dubboWire, dubboFields]
    rw [Wire.need_eq hmagic hc]
    exact Nat.zero_lt_succ 3
  piece _ _ hc hf := DubboReader.piece hc hf

end PyAgent
