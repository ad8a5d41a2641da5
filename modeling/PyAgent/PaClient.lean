import PyAgent.Act
import PyAgent.Exchange

/-!
# The consumer agent's connections

pa_client.cc: a connection writes its key as soon as it is up, and requests once the
key has been written; until then they wait in `que`. Responses come back in any
order and find their callback by id.
-/

namespace PyAgent
set_option autoImplicit false

open Streaming

/-- What `_pa_read_cb` keeps from one call to the next; the values of `read_state` count from 0. -/
inductive PaReadState where
  | id | dataLen | result
  deriving DecidableEq

structure PaReader where
  readState : PaReadState
  aResp : ActResponse
  deriving DecidableEq

/-- The rest of `pa_client`, the bytes handed to `uv_write` and the callbacks made so far. -/
structure PaClient (γ χ : Type) where
  key : ActReuseKey
  connected : Bool
  que : List ActRequest
  callbacks : Int → Option γ
  contexts : Int → Option χ
  socket : Bytes
  calls : List (γ × ActResponse × χ)

namespace PaClient
variable {γ χ : Type}

def create (key : ActReuseKey) : PaClient γ χ :=
  ⟨key, false, [], fun _ => none, fun _ => none, [], []⟩

def handleQueue (client : PaClient γ χ) : PaClient γ χ :=
  if client.connected then
    { client with
      socket := client.socket ++ (client.que.map paActRequestEncode).flatten
      que := [] }
  else client

def onConn (client : PaClient γ χ) (status : Int) : PaClient γ χ :=
  if status < 0 then client
  else handleQueue { client with socket := client.socket ++ paEncodeActKey client.key }

def keyWriteCb (client : PaClient γ χ) (status : Int) : PaClient γ χ :=
  if status ≠ 0 then client else handleQueue { client with connected := true }

def fetch (client : PaClient γ χ) (req : ActRequest) (cb : γ) (context : χ) : PaClient γ χ :=
  handleQueue { client with
    que := client.que ++ [req]
    callbacks := Function.update client.callbacks req.id (some cb)
    contexts := Function.update client.contexts req.id (some context) }

/-- The end of `_pa_read_cb`'s loop body. An id that is not in the maps gives a null function and a
null context. -/
def answer (client : PaClient γ χ) (resp : ActResponse) : Option (PaClient γ χ) :=
  match client.callbacks resp.id, client.contexts resp.id with
  | some cb, some context => some { client with
      calls := client.calls ++ [(cb, resp, context)]
      callbacks := Function.update client.callbacks resp.id none
      contexts := Function.update client.contexts resp.id none }
  | _, _ => none

@[simp] theorem handleQueue_callbacks (client : PaClient γ χ) :
    client.handleQueue.callbacks = client.callbacks := by
  unfold handleQueue
  split <;> rfl

@[simp] theorem handleQueue_contexts (client : PaClient γ χ) :
    client.handleQueue.contexts = client.contexts := by
  unfold handleQueue
  split <;> rfl

@[simp] theorem handleQueue_calls (client : PaClient γ χ) :
    client.handleQueue.calls = client.calls := by
  unfold handleQueue
  split <;> rfl

@[simp] theorem handleQueue_key (client : PaClient γ χ) :
    client.handleQueue.key = client.key := by
  unfold handleQueue
  split <;> rfl

theorem answer_of_some {client : PaClient γ χ} {resp : ActResponse} {cb : γ} {context : χ}
    (hcb : client.callbacks resp.id = some cb) (hcontext : client.contexts resp.id = some context) :
    client.answer resp = some { client with
      calls := client.calls ++ [(cb, resp, context)]
      callbacks := Function.update client.callbacks resp.id none
      contexts := Function.update client.contexts resp.id none } := by
  simp only [answer, hcb, hcontext]

end PaClient

/-! ## The read loop -/

namespace PaReader

def gotId (c : PaReader) (n : Int) : PaReader :=
  { c with aResp := { c.aResp with id := n }, readState := .dataLen }

def gotDataLen (c : PaReader) (n : Int) : PaReader :=
  { c with aResp := { c.aResp with dataLen := n }, readState := .result }

def gotResult (c : PaReader) (s : Bytes) : PaReader :=
  { c with aResp := { c.aResp with result := s }, readState := .id }

end PaReader

def paFields : List (Field PaReadState PaReader ActResponse) :=
  [lenField .id PaReader.gotId,
    lenField .dataLen PaReader.gotDataLen,
    strField .result (fun c => c.aResp.dataLen) PaReader.gotResult fun c => [c.aResp]]

section
variable {γ χ : Type}

def paReadBody : Rx PaReader (PaClient γ χ) → Flow (Rx PaReader (PaClient γ χ)) :=
  seq (paFields.map (Field.run PaReader.readState PaClient.answer))

def paReadCb (nread : Int) (l : Rx PaReader (PaClient γ χ)) :
    Option (Exit (Rx PaReader (PaClient γ χ))) :=
  if nread < 0 then some (.done l)
  else loop Rx.more paReadBody ((l.arrive nread).passes 3) (l.arrive nread)

end

def paClientReadCbs (γ χ : Type) : ReadCbs PaReader (PaClient γ χ) := ⟨paAllocCb, paReadCb⟩

def paWire : Wire PaReadState PaReader ActResponse where
  stage := PaReader.readState
  fields := paFields
  nodup := by decide
  flows := by
    refine ⟨?_, ?_, ?_, trivial⟩
    · intro c bs _
      exact Or.inl (by simp [lenField, PaReader.gotId])
    · intro c bs _
      exact Or.inl (by simp [lenField, strField, PaReader.gotDataLen])
    · intro c bs _
      exact Or.inr ⟨lenField .id PaReader.gotId, by simp [paFields],
        fun _ => by simp [lenField], rfl⟩
  plain := by
    simp [paFields, Field.Fixed, lenField, strField]

theorem paReadBody_eq (γ χ : Type) :
    (paReadBody : Rx PaReader (PaClient γ χ) → _) = body (paWire.stmts PaClient.answer) := by
  simp [paReadBody, body, Wire.stmts, paWire, Field.stmt, Function.comp_def]

theorem paClientReadCbs_implements (γ χ : Type) :
    (paClientReadCbs γ χ).Implements paWire PaClient.answer := by
  refine ⟨⟨uintRemain, rfl, fun _ _ hb hint => (hb.remain hint).2⟩, ?_⟩
  intro n l
  left
  simp only [paClientReadCbs, paReadCb]
  rw [if_neg (by omega), paReadBody_eq]
  rfl

/-- The connection of a client, before anything has been read from it. -/
def paLink {γ χ : Type} (m : BufStore) (resp : ActResponse) (client : PaClient γ χ) :
    Link PaReader (PaClient γ χ) :=
  ⟨m, none, ⟨.id, resp⟩, client⟩

theorem paLink_good {γ χ : Type} {m : BufStore} {cap : Nat} (hm : m.Wf cap) (resp : ActResponse)
    (client : PaClient γ χ) : (paLink m resp client).Good paWire cap :=
  ⟨hm, by simp [paLink], lenField .id PaReader.gotId, by simp [paWire, paFields], rfl⟩

/-! ## Responses on the wire -/

structure ActFrame where
  id : Int
  payload : Bytes
  deriving DecidableEq

namespace ActFrame

def encode (f : ActFrame) : Bytes := writeInt f.id ++ writeInt f.payload.length ++ f.payload

structure Wf (f : ActFrame) : Prop where
  id : IsInt32 f.id
  length_lt : f.encode.length < 2147483648

/-- All that the length field of a frame asks for. -/
structure Sized (f : ActFrame) : Prop where
  id : IsInt32 f.id
  payload_lt : f.payload.length < 2147483648

theorem encode_length (f : ActFrame) : f.encode.length = 8 + f.payload.length := by
  simp only [encode, List.length_append, writeInt_length]

theorem encode_pos (f : ActFrame) : 0 < f.encode.length := by
  rw [encode_length]
  omega

theorem Wf.sized {f : ActFrame} (hf : f.Wf) : f.Sized := by
  have := hf.length_lt
  rw [encode_length] at this
  exact ⟨hf.id, by omega⟩

/-- The longest field, in bytes. -/
def width (f : ActFrame) : Nat := max 4 f.payload.length

def response (f : ActFrame) : ActResponse := ⟨f.id, f.payload.length, nulPadded f.payload⟩

end ActFrame

open PaReader in
theorem PaReader.sized_run {c : PaReader} (hc : c.readState = .id) {f : ActFrame}
    (hf : f.Sized) :
    ∃ c', c'.readState = .id ∧ paWire.decoder.Run c f.encode [f.response] f.width c' := by
  let c₁ := c.gotId f.id
  let c₂ := (c₁.gotDataLen f.payload.length).gotResult (nulPadded f.payload)
  have hid : paWire.decoder.Run c (writeInt f.id) [] 4 c₁ :=
    lenField_run gotId (by simp [paWire, paFields]) hc hf.id
  have hlt := hf.payload_lt
  have hpayload : IsInt32 f.payload.length := ⟨by omega, by omega⟩
  have hresult : paWire.decoder.Run c₁ (writeInt f.payload.length ++ f.payload)
      [f.response] (max 4 f.payload.length) c₂ :=
    PyAgent.sized_run gotDataLen (fun c => c.aResp.dataLen) gotResult (fun c => [c.aResp])
      (by simp [paWire, paFields]) (by simp [paWire, paFields])
      (show paWire.stage c₁ = .dataLen from rfl) (fun _ => rfl) (fun _ => rfl) rfl hpayload
  have h := hid.append hresult
  have hwidth : max 4 (max 4 f.payload.length) = f.width := by
    unfold ActFrame.width
    omega
  rw [hwidth] at h
  refine ⟨c₂, rfl, ?_⟩
  simpa only [ActFrame.encode, List.append_assoc] using h

theorem PaReader.sized_piece {c : PaReader} (hc : c.readState = .id) {f : ActFrame}
    (hf : f.Sized) :
    ∃ c', c'.readState = .id ∧ paWire.decoder.Piece c f.encode [f.response] c' := by
  obtain ⟨c', hc', hrun⟩ := PaReader.sized_run hc hf
  exact ⟨c', hc', hrun.toPiece⟩

theorem PaReader.piece {c : PaReader} (hc : c.readState = .id) {f : ActFrame} (hf : f.Wf) :
    ∃ c', c'.readState = .id ∧ paWire.decoder.Piece c f.encode [f.response] c' :=
  PaReader.sized_piece hc hf.sized

/-- Frames of any length. -/
def sizedFraming : paWire.decoder.Framing ActFrame where
  enc := ActFrame.encode
  out := ActFrame.response
  good := ActFrame.Sized
  between c := c.readState = .id
  enc_pos := ActFrame.encode_pos
  need_pos c hc := by
    have hid : lenField .id PaReader.gotId ∈ paWire.fields := by simp [paWire, paFields]
    rw [Wire.need_eq hid hc]
    exact Nat.zero_lt_succ 3
  piece _ _ hc hf := PaReader.sized_piece hc hf

def paFraming : paWire.decoder.Framing ActFrame where
  enc := ActFrame.encode
  out := ActFrame.response
  good := ActFrame.Wf
  between c := c.readState = .id
  enc_pos := ActFrame.encode_pos
  need_pos := sizedFraming.need_pos
  piece _ _ hc hf := PaReader.piece hc hf

end PyAgent
