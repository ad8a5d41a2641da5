import PyAgent.PaClient

/-!
# The frame parser of the Java consumer agent

FrameParser.java keeps everything it has not parsed in one buffer and an offset into
it. Its `while(true)` is left by `break` only, and every exit looks at `state`. The
charset of `new String` is a parameter, and so is the handler of the client.
-/

namespace PyAgent.Java
set_option autoImplicit false

open Streaming

/-- Big-endian; an index out of bounds throws. -/
def getInt (buffer : Bytes) (pos : Nat) : Option Int :=
  if pos + 4 ≤ buffer.length then some (bytes2int (buffer.drop pos)) else none

def getBytes (buffer : Bytes) (start stop : Int) : Option Bytes :=
  if 0 ≤ start ∧ start ≤ stop ∧ stop ≤ buffer.length then
    some ((buffer.drop start.toNat).take (stop - start).toNat)
  else none

/-- A buffer has at most 2^31 - 1 bytes. -/
def appendBuffer (buffer newBuffer : Bytes) : Option Bytes :=
  if buffer.length + newBuffer.length < 2147483648 then some (buffer ++ newBuffer) else none

/-- `result` is null until a frame has been parsed. -/
structure ActResponse (τ : Type) where
  apid : Int := 0
  result : Option τ := none
  deriving DecidableEq

/-- `Future.succeededFuture` and `Future.failedFuture`. -/
inductive AsyncResult (τ : Type) where
  | succeeded (actResponse : ActResponse τ)
  | failed
  deriving DecidableEq

inductive Throwable where
  | decodeException | other

/-- What `client.handle` does, and what it throws if it does not return. -/
abbrev Handler (κ τ : Type) := κ → AsyncResult τ → κ × Option Throwable

/-- The values of `state` count from 0. -/
inductive ParserState where
  | apid | length | result
  deriving DecidableEq

structure FrameContext (τ : Type) where
  state : ParserState := .apid
  length : Int := 0
  actResponse : ActResponse τ := {}
  deriving DecidableEq

namespace FrameContext
variable {τ : Type}

def gotApid (c : FrameContext τ) (n : Int) : FrameContext τ :=
  { c with actResponse := { c.actResponse with apid := n }, state := .length }

def gotLength (c : FrameContext τ) (n : Int) : FrameContext τ :=
  { c with length := n, state := .result }

def gotResult (c : FrameContext τ) (result : τ) : FrameContext τ :=
  { c with actResponse := { c.actResponse with result := some result }, state := .apid }

end FrameContext

structure FrameParser (τ : Type) extends FrameContext τ where
  buffer : Option Bytes := none
  offset : Nat := 0
  deriving DecidableEq

/-- The loop body: the parser, the local variable and what the handler can reach. -/
structure Handling (κ τ : Type) where
  parser : FrameParser τ
  remainingBytes : Int
  env : κ

namespace FrameParser
variable {κ τ : Type}

def append (p : FrameParser τ) (newBuffer : Bytes) : Option (FrameParser τ) :=
  match p.buffer with
  | none => some { p with buffer := some newBuffer }
  | some buffer =>
    if buffer.length ≤ p.offset then some { p with buffer := some newBuffer, offset := 0 }
    else (appendBuffer buffer newBuffer).map fun buffer => { p with buffer := some buffer }

def bytesRemaining (buffer : Bytes) (offset : Nat) : Int :=
  if (buffer.length : Int) - offset < 0 then 0 else buffer.length - offset

/-- `try { client.handle(succeeded) } catch (DecodeException e) { client.handle(failed) }`;
`none` when something is thrown out of it. -/
def notify (client : Handler κ τ) (env : κ) (actResponse : ActResponse τ) : Option κ :=
  match client env (.succeeded actResponse) with
  | (env', none) => some env'
  | (env', some .decodeException) =>
    match client env' .failed with
    | (env'', none) => some env''
    | (_, some _) => none
  | (_, some .other) => none

def countRemaining (h : Handling κ τ) : Flow (Handling κ τ) :=
  match h.parser.buffer with
  | none => .fault
  | some buffer => .next { h with remainingBytes := bytesRemaining buffer h.parser.offset }

/-- `if (state == tag && remainingBytes >= 4) {...} else if (state == tag && ...) break;` -/
def readInt (tag : ParserState) (set : FrameContext τ → Int → FrameContext τ)
    (h : Handling κ τ) : Flow (Handling κ τ) :=
  if h.parser.state = tag ∧ 4 ≤ h.remainingBytes then
    match h.parser.buffer.bind fun buffer => getInt buffer h.parser.offset with
    | none => .fault
    | some n => .next { h with
        parser := { h.parser with
          toFrameContext := set h.parser.toFrameContext n
          offset := h.parser.offset + 4 }
        remainingBytes := h.remainingBytes - 4 }
  else if h.parser.state = tag ∧ h.remainingBytes < 4 then .leave h
  else .next h

def readApid : Handling κ τ → Flow (Handling κ τ) := readInt .apid FrameContext.gotApid

def readLength : Handling κ τ → Flow (Handling κ τ) := readInt .length FrameContext.gotLength

/-- `remainingBytes` is not counted down here. -/
def readResult (newString : Bytes → τ) (client : Handler κ τ) (h : Handling κ τ) :
    Flow (Handling κ τ) :=
  if h.parser.state = .result ∧ h.parser.length ≤ h.remainingBytes then
    match h.parser.buffer.bind fun buffer =>
      getBytes buffer h.parser.offset (h.parser.offset + h.parser.length) with
    | none => .fault
    | some bytes =>
      let parser := { h.parser with
        actResponse := { h.parser.actResponse with result := some (newString bytes) }
        offset := (h.parser.offset + h.parser.length).toNat
        state := .apid }
      match notify client h.env parser.actResponse with
      | none => .fault
      | some env => .next { h with parser := parser, env := env }
  else if h.parser.state = .result ∧ h.remainingBytes < h.parser.length then .leave h
  else .next h

def stmts (newString : Bytes → τ) (client : Handler κ τ) :
    List (Handling κ τ → Flow (Handling κ τ)) :=
  [countRemaining, readApid, readLength, readResult newString client]

/-- More passes than the bytes in the buffer can take. -/
def passes (p : FrameParser τ) : Nat := 4 * (p.buffer.elim 0 List.length) + 5

/-- `handle`; `none` when something is thrown out of it. -/
def handle (newString : Bytes → τ) (client : Handler κ τ) (p : FrameParser τ) (env : κ)
    (newBuffer : Bytes) : Option (FrameParser τ × κ) :=
  match p.append newBuffer with
  | none => none
  | some p =>
    match loop (fun _ => true) (seq (stmts newString client)) p.passes ⟨p, 0, env⟩ with
    | some (.done h) => some (h.parser, h.env)
    | _ => none

def handleAll (newString : Bytes → τ) (client : Handler κ τ) :
    List Bytes → FrameParser τ → κ → Option (FrameParser τ × κ)
  | [], p, env => some (p, env)
  | newBuffer :: buffers, p, env =>
    (p.handle newString client env newBuffer).bind fun r =>
      handleAll newString client buffers r.1 r.2

/-- The parser at every moment of the calls of `handle`. -/
inductive During (newString : Bytes → τ) (client : Handler κ τ) :
    List Bytes → FrameParser τ → κ → FrameParser τ → Prop where
  | now {newBuffer : Bytes} {buffers : List Bytes} {p p' : FrameParser τ} {env : κ}
      {todo : List (Handling κ τ → Flow (Handling κ τ))} {h : Handling κ τ} :
      p.append newBuffer = some p' →
      Moments (fun _ => true) (stmts newString client) ⟨p', 0, env⟩ todo h →
      During newString client (newBuffer :: buffers) p env h.parser
  | later {newBuffer : Bytes} {buffers : List Bytes} {p p' q : FrameParser τ} {env env' : κ} :
      p.handle newString client env newBuffer = some (p', env') →
      During newString client buffers p' env' q →
      During newString client (newBuffer :: buffers) p env q

end FrameParser

/-- A client that keeps a record of its calls. -/
def record {τ : Type} (calls : List (AsyncResult τ)) (r : AsyncResult τ) :
    List (AsyncResult τ) × Option Throwable :=
  (calls ++ [r], none)

/-! ## As a decoder -/

section
variable {κ τ : Type}

def resultField (newString : Bytes → τ) : Field ParserState (FrameContext τ) (ActResponse τ) where
  tag := .result
  need c := c.length
  store c bs := c.gotResult (newString (bs.take c.length.toNat))
  emit c := [c.actResponse]
  store_take c bs := by rw [List.take_take, Nat.min_self]

def frameFields (newString : Bytes → τ) :
    List (Field ParserState (FrameContext τ) (ActResponse τ)) :=
  [lenField .apid FrameContext.gotApid, lenField .length FrameContext.gotLength,
    resultField newString]

def frameWire (newString : Bytes → τ) : Wire ParserState (FrameContext τ) (ActResponse τ) where
  stage := FrameContext.state
  fields := frameFields newString
  nodup := by simp [frameFields, lenField, resultField]
  flows := by
    refine ⟨?_, ?_, ?_, trivial⟩
    · intro c bs _
      exact Or.inl (by simp [lenField, FrameContext.gotApid])
    · intro c bs _
      exact Or.inl (by simp [lenField, resultField, FrameContext.gotLength])
    · intro c bs _
      exact Or.inr ⟨lenField .apid FrameContext.gotApid, by simp [frameFields],
        fun _ => by simp [lenField], rfl⟩
  plain := by
    simp [frameFields, Field.Fixed, lenField, resultField]

/-- What the client is called with for a frame. -/
def response (newString : Bytes → τ) (f : ActFrame) : ActResponse τ :=
  ⟨f.id, some (newString f.payload)⟩

open FrameContext in
theorem frame_run (newString : Bytes → τ) {c : FrameContext τ} (hc : c.state = .apid)
    {f : ActFrame} (hf : f.Sized) : ∃ c', c'.state = .apid ∧
      (frameWire newString).decoder.Run c f.encode [response newString f] f.width c' := by
  let c₁ := c.gotApid f.id
  let c₂ := c₁.gotLength f.payload.length
  have hlt := hf.payload_lt
  have hapid : (frameWire newString).decoder.Run c (writeInt f.id) [] 4 c₁ :=
    lenField_run gotApid (by simp [frameWire, frameFields]) hc hf.id
  have hlength : (frameWire newString).decoder.Run c₁ (writeInt f.payload.length) [] 4 c₂ :=
    lenField_run gotLength (by simp [frameWire, frameFields])
      (show (frameWire newString).stage c₁ = .length from rfl) ⟨by omega, by omega⟩
  have hresult := Wire.field_run (W := frameWire newString) (f := resultField newString) (s := c₂)
    (by simp [frameWire, frameFields]) rfl f.payload rfl rfl
  have hstore : (resultField newString).store c₂ f.payload =
      c₂.gotResult (newString f.payload) := by
    simp [resultField, c₂, gotLength]
  rw [hstore] at hresult
  refine ⟨c₂.gotResult (newString f.payload), rfl, ?_⟩
  have h := (hapid.append hlength).append hresult
  have hwidth : max (max 4 4) f.payload.length = f.width := by
    unfold ActFrame.width
    omega
  rw [hwidth] at h
  exact h

theorem frame_need_pos (newString : Bytes → τ) (c : FrameContext τ) (hc : c.state = .apid) :
    0 < (frameWire newString).decoder.need c := by
  have hapid : lenField .apid FrameContext.gotApid ∈ (frameWire newString).fields := by
    simp [frameWire, frameFields]
  rw [Wire.need_eq hapid hc]
  exact Nat.zero_lt_succ 3

def frameFraming (newString : Bytes → τ) : (frameWire newString).decoder.Framing ActFrame where
  enc := ActFrame.encode
  out := response newString
  good := ActFrame.Sized
  between c := c.state = .apid
  enc_pos := ActFrame.encode_pos
  need_pos := frame_need_pos newString
  piece _ _ hc hf := by
    obtain ⟨c', hc', hrun⟩ := frame_run newString hc hf
    exact ⟨c', hc', hrun.toPiece⟩

/-! ## The loop -/

/-- The offset is inside the buffer, which has at most `n` bytes. -/
def FrameParser.Inside (n : Nat) (p : FrameParser τ) : Prop :=
  ∃ buffer, p.buffer = some buffer ∧ p.offset ≤ buffer.length ∧ buffer.length ≤ n

def FrameParser.unparsed (p : FrameParser τ) : Bytes := (p.buffer.getD []).drop p.offset

/-- The local variable does not outlive a pass, and a pass sets it first. -/
def Handling.forget (h : Handling κ τ) : FrameParser τ × κ := (h.parser, h.env)

def counted (l : FrameParser τ × κ) : Handling κ τ :=
  ⟨l.1, l.1.buffer.elim 0 fun buffer => FrameParser.bytesRemaining buffer l.1.offset, l.2⟩

open FrameParser

variable {m : Nat}

theorem counted_remaining {l : FrameParser τ × κ} (hl : l.1.Inside m) :
    (counted l).remainingBytes = l.1.unparsed.length := by
  obtain ⟨buffer, hbuffer, hle, _⟩ := hl
  simp only [counted, unparsed, hbuffer, Option.elim_some, Option.getD_some, List.length_drop,
    bytesRemaining]
  omega

theorem getInt_unparsed {p : FrameParser τ} (hp : p.Inside m) (h : 4 ≤ p.unparsed.length) :
    (p.buffer.bind fun buffer => getInt buffer p.offset) = some (bytes2int p.unparsed) := by
  obtain ⟨buffer, hbuffer, hle, _⟩ := hp
  simp only [unparsed, hbuffer, Option.getD_some, List.length_drop] at h
  have hin : p.offset + 4 ≤ buffer.length := by omega
  simp only [unparsed, hbuffer, Option.bind_some, Option.getD_some, getInt, if_pos hin]

theorem getBytes_unparsed {p : FrameParser τ} (hp : p.Inside m) {n : Int} (h0 : 0 ≤ n)
    (h : n ≤ p.unparsed.length) :
    (p.buffer.bind fun buffer => getBytes buffer p.offset (p.offset + n)) =
      some (p.unparsed.take n.toNat) := by
  obtain ⟨buffer, hbuffer, hle, _⟩ := hp
  simp only [unparsed, hbuffer, Option.getD_some, List.length_drop] at h
  have hin : (0 : Int) ≤ p.offset ∧ (p.offset : Int) ≤ p.offset + n ∧
      p.offset + n ≤ buffer.length := by omega
  have hn : ((p.offset : Int) + n - p.offset).toNat = n.toNat := by omega
  simp only [unparsed, hbuffer, Option.bind_some, Option.getD_some, getBytes, if_pos hin, hn,
    Int.toNat_natCast]

def parserView (κ τ : Type) : View (FrameParser τ × κ) (FrameContext τ) UInt8 κ :=
  ⟨fun l => l.1.toFrameContext, fun l => l.1.unparsed, Prod.snd⟩

def frameStmts (newString : Bytes → τ) (client : Handler κ τ) :
    List (Stmt (FrameParser τ × κ) (FrameContext τ)) :=
  [⟨fun c => c.state = .apid, part Handling.forget counted (seq [countRemaining, readApid])⟩,
    ⟨fun c => c.state = .length, part Handling.forget counted readLength⟩,
    ⟨fun c => c.state = .result, part Handling.forget counted (readResult newString client)⟩]

theorem countRemaining_eq {h : Handling κ τ} (hp : h.parser.buffer ≠ none) :
    countRemaining h = .next (counted h.forget) := by
  unfold countRemaining counted Handling.forget
  cases hbuffer : h.parser.buffer with
  | none => exact absurd hbuffer hp
  | some buffer => rfl

theorem counted_forget_iff {h : Handling κ τ} : counted h.forget = h ↔
    h.remainingBytes =
      h.parser.buffer.elim 0 fun buffer => bytesRemaining buffer h.parser.offset := by
  constructor
  · intro heq
    exact (congrArg Handling.remainingBytes heq).symm
  · intro heq
    cases h
    simp only [counted, Handling.forget] at heq ⊢
    rw [heq]

/-- Reading four bytes and counting them down is counting again. -/
theorem remaining_sub_four {buffer : Option Bytes} {offset : Nat} {n : Int}
    (hn : (buffer.bind fun buffer => getInt buffer offset) = some n) :
    (buffer.elim 0 fun buffer => bytesRemaining buffer offset) - 4 =
      buffer.elim 0 fun buffer => bytesRemaining buffer (offset + 4) := by
  cases buffer with
  | none => cases hn
  | some buffer =>
    have hin : offset + 4 ≤ buffer.length := by
      by_contra hout
      simp [getInt, hout] at hn
    simp only [Option.elim_some, bytesRemaining]
    omega

theorem readInt_next {tag : ParserState} {set : FrameContext τ → Int → FrameContext τ}
    {h h' : Handling κ τ} (hr : readInt tag set h = .next h') :
    h' = h ∨ ∃ n, (h.parser.buffer.bind fun buffer => getInt buffer h.parser.offset) = some n ∧
      h' = { h with
        parser := { h.parser with
          toFrameContext := set h.parser.toFrameContext n
          offset := h.parser.offset + 4 }
        remainingBytes := h.remainingBytes - 4 } := by
  unfold readInt at hr
  split at hr
  · cases hn : h.parser.buffer.bind fun buffer => getInt buffer h.parser.offset with
    | none => simp [hn] at hr
    | some n =>
      simp only [hn, Flow.next.injEq] at hr
      exact Or.inr ⟨n, rfl, hr.symm⟩
  · split at hr
    · cases hr
    · exact Or.inl (Flow.next.inj hr).symm

theorem readInt_keeps {tag : ParserState} {set : FrameContext τ → Int → FrameContext τ}
    {h h' : Handling κ τ} (hc : counted h.forget = h) (hr : readInt tag set h = .next h') :
    counted h'.forget = h' := by
  rcases readInt_next hr with rfl | ⟨n, hn, rfl⟩
  · exact hc
  · apply counted_forget_iff.mpr
    rw [← remaining_sub_four hn, ← counted_forget_iff.mp hc]

/-- The loop body is the three statements on the parser alone. -/
theorem stmts_eq (newString : Bytes → τ) (client : Handler κ τ) (h : Handling κ τ) :
    body (frameStmts newString client) h.forget =
      (seq (stmts newString client) h).map Handling.forget := by
  have hbody : body (frameStmts newString client) =
      seq [part Handling.forget counted (seq [countRemaining, readApid]),
        part Handling.forget counted readLength,
        part Handling.forget counted (readResult newString client)] := rfl
  by_cases hbuffer : h.parser.buffer = none
  · have hfault : countRemaining h = .fault := by simp [countRemaining, hbuffer]
    have hfault' : part Handling.forget counted (seq [countRemaining, readApid]) h.forget =
        .fault := by
      have hbuffer' : (counted h.forget).parser.buffer = none := hbuffer
      simp [part, seq, countRemaining, hbuffer', Flow.map]
    rw [hbody, seq_cons_fault hfault', stmts, seq_cons_fault hfault]
    rfl
  · have hfirst : part Handling.forget counted (seq [countRemaining, readApid]) h.forget =
        part Handling.forget counted readApid h.forget := by
      have hcount : countRemaining (counted h.forget) = .next (counted h.forget) :=
        countRemaining_eq hbuffer
      unfold part
      rw [seq_cons_next hcount, seq_singleton]
    have hrest : (seq [readApid, readLength, readResult newString client] (counted h.forget)).map
        Handling.forget = seq ([readApid, readLength, readResult newString client].map
          (part Handling.forget counted)) h.forget := by
      apply seq_part (s := counted h.forget)
      · intro b hb s s' hs hr
        simp only [List.dropLast_cons_cons, List.dropLast_singleton, List.mem_cons,
          List.not_mem_nil, or_false] at hb
        rcases hb with rfl | rfl
        · exact readInt_keeps hs hr
        · exact readInt_keeps hs hr
      · rfl
    rw [stmts, seq_cons_next (countRemaining_eq hbuffer), hrest, hbody]
    exact seq_cons_congr hfirst _

theorem FrameParser.Inside.advance {p p' : FrameParser τ} (hp : p.Inside m) {n : Nat}
    (hn : n ≤ p.unparsed.length) (hbuffer : p'.buffer = p.buffer)
    (hoffset : p'.offset = p.offset + n) :
    p'.Inside m ∧ p'.unparsed = p.unparsed.drop n := by
  obtain ⟨buffer, hb, hle, hlen⟩ := hp
  simp only [unparsed, hb, Option.getD_some, List.length_drop] at hn
  refine ⟨⟨buffer, hbuffer.trans hb, by omega, hlen⟩, ?_⟩
  simp only [unparsed, hbuffer, hb, Option.getD_some, hoffset, List.drop_drop]

variable {newString : Bytes → τ} {client : Handler κ τ}

theorem countRemaining_counted {l : FrameParser τ × κ} (hl : l.1.Inside m) :
    countRemaining (counted l) = .next (counted l) := by
  obtain ⟨buffer, hbuffer, _⟩ := hl
  apply countRemaining_eq
  simp [counted, hbuffer]

theorem readInt_idle {tag : ParserState} {set : FrameContext τ → Int → FrameContext τ}
    {h : Handling κ τ} (hs : h.parser.state ≠ tag) : readInt tag set h = .next h := by
  simp [readInt, hs]

theorem readResult_idle {h : Handling κ τ} (hs : h.parser.state ≠ .result) :
    readResult newString client h = .next h := by
  simp [readResult, hs]

/-- The parser behind the four bytes of an int. -/
def FrameParser.gotInt (set : FrameContext τ → Int → FrameContext τ) (p : FrameParser τ) (n : Int) :
    FrameParser τ :=
  { p with toFrameContext := set p.toFrameContext n, offset := p.offset + 4 }

theorem readInt_reads {l : FrameParser τ × κ} (hl : l.1.Inside m) {tag : ParserState}
    {set : FrameContext τ → Int → FrameContext τ} (hs : l.1.state = tag)
    (henough : 4 ≤ l.1.unparsed.length) : part Handling.forget counted (readInt tag set) l =
      .next (l.1.gotInt set (bytes2int l.1.unparsed), l.2) := by
  have hremaining := counted_remaining hl
  have hcond : (counted l).parser.state = tag ∧ 4 ≤ (counted l).remainingBytes :=
    ⟨hs, by omega⟩
  have hint := getInt_unparsed hl henough
  simp only [part, readInt, if_pos hcond]
  simp only [counted, hint]
  rfl

theorem readInt_waits {l : FrameParser τ × κ} (hl : l.1.Inside m) {tag : ParserState}
    {set : FrameContext τ → Int → FrameContext τ} (hs : l.1.state = tag)
    (hfew : l.1.unparsed.length < 4) : part Handling.forget counted (readInt tag set) l =
      .leave l := by
  have hremaining := counted_remaining hl
  have hcond : ¬ ((counted l).parser.state = tag ∧ 4 ≤ (counted l).remainingBytes) := by omega
  have hcond' : (counted l).parser.state = tag ∧ (counted l).remainingBytes < 4 :=
    ⟨hs, by omega⟩
  simp only [part, readInt, if_neg hcond, if_pos hcond']
  rfl

theorem readInt_meets {l : FrameParser τ × κ} (hl : l.1.Inside m) {tag : ParserState}
    {set : FrameContext τ → Int → FrameContext τ}
    (hf : lenField tag set ∈ (frameWire newString).fields) (hs : l.1.state = tag) :
    Meets (frameWire newString).decoder (notify client) (parserView κ τ) (fun l => l.1.Inside m) l
      (part Handling.forget counted (readInt tag set) l) := by
  have hneed : (frameWire newString).decoder.need l.1.toFrameContext = 4 :=
    Wire.need_eq (W := frameWire newString) hf hs
  rcases Nat.lt_or_ge l.1.unparsed.length 4 with hfew | henough
  · rw [readInt_waits hl hs hfew]
    apply Meets.wait
    simp only [parserView, Decoder.Waits, hneed]
    exact hfew
  · let p := l.1.gotInt set (bytes2int l.1.unparsed)
    obtain ⟨hinside, hunparsed⟩ : p.Inside m ∧ p.unparsed = l.1.unparsed.drop 4 :=
      hl.advance henough rfl rfl
    have htake := Wire.take_eq (W := frameWire newString) hf hs (l.1.unparsed.take 4)
    have hint := bytes2int_take l.1.unparsed (Nat.le_refl 4)
    simp only [lenField, hint] at htake
    have htook : (frameWire newString).decoder.take ((parserView κ τ).state l)
        (((parserView κ τ).unread l).take 4) = .took ((parserView κ τ).state (p, l.2)) [] := htake
    rw [← hneed] at htook
    rw [readInt_reads hl hs henough]
    apply Meets.step (hneed.trans_le henough) htook
    · simp only [parserView, hneed]
      exact hunparsed
    · rfl
    · exact hinside

theorem part_countRemaining {l : FrameParser τ × κ} (hl : l.1.Inside m)
    (b : Handling κ τ → Flow (Handling κ τ)) :
    part Handling.forget counted (seq [countRemaining, b]) l =
      part Handling.forget counted b l := by
  simp only [part, seq_cons_next (countRemaining_counted hl), seq_singleton]

/-- The parser behind the bytes of a result. -/
def FrameParser.gotBytes (newString : Bytes → τ) (p : FrameParser τ) (bytes : Bytes) :
    FrameParser τ :=
  { p with
    toFrameContext := p.toFrameContext.gotResult (newString bytes)
    offset := (p.offset + p.length).toNat }

theorem readResult_reads {l : FrameParser τ × κ} (hl : l.1.Inside m) (hs : l.1.state = .result)
    (henough : l.1.length ≤ l.1.unparsed.length) :
    part Handling.forget counted (readResult newString client) l =
      match l.1.buffer.bind fun buffer =>
        getBytes buffer l.1.offset (l.1.offset + l.1.length) with
      | none => .fault
      | some bytes =>
        match notify client l.2 (l.1.gotBytes newString bytes).actResponse with
        | none => .fault
        | some env => .next (l.1.gotBytes newString bytes, env) := by
  have hcond : (counted l).parser.state = .result ∧
      (counted l).parser.length ≤ (counted l).remainingBytes :=
    ⟨hs, henough.trans_eq (counted_remaining hl).symm⟩
  simp only [part, readResult, if_pos hcond]
  simp only [counted]
  cases l.1.buffer.bind fun buffer => getBytes buffer l.1.offset (l.1.offset + l.1.length) with
  | none => rfl
  | some bytes =>
    simp only [gotBytes, FrameContext.gotResult]
    cases notify client l.2 { l.1.actResponse with result := some (newString bytes) } with
    | none => rfl
    | some env => rfl

theorem readResult_waits {l : FrameParser τ × κ} (hl : l.1.Inside m) (hs : l.1.state = .result)
    (hfew : l.1.unparsed.length < l.1.length) :
    part Handling.forget counted (readResult newString client) l = .leave l := by
  have hfew' : (counted l).remainingBytes < (counted l).parser.length :=
    (counted_remaining hl).trans_lt hfew
  have hcond : ¬ ((counted l).parser.state = .result ∧
      (counted l).parser.length ≤ (counted l).remainingBytes) := by omega
  have hcond' : (counted l).parser.state = .result ∧
      (counted l).remainingBytes < (counted l).parser.length := ⟨hs, hfew'⟩
  simp only [part, readResult, if_neg hcond, if_pos hcond']
  rfl

/-- `getBytes` throws when the slice would end before it starts. -/
theorem getBytes_of_neg (buffer : Option Bytes) (offset : Nat) {n : Int} (hn : n < 0) :
    (buffer.bind fun buffer => getBytes buffer offset (offset + n)) = none := by
  cases buffer with
  | none => rfl
  | some buffer =>
    simp only [Option.bind_some, getBytes]
    exact if_neg (by omega)

theorem readResult_meets {l : FrameParser τ × κ} (hl : l.1.Inside m) (hs : l.1.state = .result) :
    Meets (frameWire newString).decoder (notify client) (parserView κ τ) (fun l => l.1.Inside m) l
      (part Handling.forget counted (readResult newString client) l) := by
  have hf : resultField newString ∈ (frameWire newString).fields := by
    simp [frameWire, frameFields]
  have hneed : (frameWire newString).decoder.need l.1.toFrameContext = l.1.length.toNat :=
    Wire.need_eq hf hs
  have htake := Wire.take_eq hf hs (l.1.unparsed.take l.1.length.toNat)
  have hfieldNeed : (resultField newString).need l.1.toFrameContext = l.1.length := rfl
  rw [hfieldNeed] at htake
  rcases Int.lt_or_le l.1.unparsed.length l.1.length with hfew | henough
  · rw [readResult_waits hl hs hfew]
    apply Meets.wait
    simp only [parserView, Decoder.Waits, hneed]
    omega
  · have hneed' : (frameWire newString).decoder.need l.1.toFrameContext ≤ l.1.unparsed.length := by
      omega
    rw [readResult_reads hl hs henough]
    rcases Int.lt_or_le l.1.length 0 with hneg | h0
    · rw [if_pos hneg] at htake
      rw [getBytes_of_neg _ _ hneg]
      apply Meets.crash
      refine ⟨hneed', Or.inl ?_⟩
      simp only [parserView, hneed]
      exact htake
    · rw [if_neg (Int.not_lt.mpr h0)] at htake
      rw [getBytes_unparsed hl h0 henough]
      let bytes := l.1.unparsed.take l.1.length.toNat
      let p := l.1.gotBytes newString bytes
      have hctx : p.toFrameContext = (resultField newString).store l.1.toFrameContext bytes := by
        simp only [resultField, bytes, List.take_take, Nat.min_self]
        rfl
      have hoffset : p.offset = l.1.offset + l.1.length.toNat := by
        simp only [p, FrameParser.gotBytes]
        omega
      have hle : l.1.length.toNat ≤ l.1.unparsed.length := by omega
      obtain ⟨hinside, hunparsed⟩ : p.Inside m ∧ p.unparsed = l.1.unparsed.drop l.1.length.toNat :=
        hl.advance hle rfl hoffset
      have htook : (frameWire newString).decoder.take ((parserView κ τ).state l)
          (((parserView κ τ).unread l).take
            ((frameWire newString).decoder.need ((parserView κ τ).state l))) =
          .took p.toFrameContext [p.actResponse] := by
        simp only [parserView, hneed, hctx]
        exact htake
      change Meets _ _ _ _ _ (match notify client l.2 p.actResponse with
        | none => .fault
        | some env => .next (p, env))
      cases hnotify : notify client l.2 p.actResponse with
      | none =>
        apply Meets.crash
        refine ⟨hneed', Or.inr ⟨p.toFrameContext, [p.actResponse], htook, ?_⟩⟩
        simp only [parserView, List.foldlM_cons, hnotify]
        rfl
      | some env =>
        apply Meets.step hneed' htook
        · simp only [parserView, hneed]
          exact hunparsed
        · simp only [parserView, List.foldlM_cons, hnotify]
          rfl
        · exact hinside

/-- The loop of `handle` does the work of the decoder. -/
theorem frame_works : Works (frameWire newString).decoder (notify client) (parserView κ τ)
    (fun l => l.1.Inside m) (fun _ => true) (frameStmts newString client) where
  more _ _ _ := rfl
  idle b hb l hl hoff := by
    simp only [frameStmts, List.mem_cons, List.not_mem_nil, or_false] at hb
    rcases hb with rfl | rfl | rfl
    · have hidle : readApid (counted l) = .next (counted l) := readInt_idle hoff
      simp only [part_countRemaining hl]
      simp only [part, hidle]
      rfl
    · have hidle : readLength (counted l) = .next (counted l) := readInt_idle hoff
      simp only [part, hidle]
      rfl
    · have hidle : readResult newString client (counted l) = .next (counted l) :=
        readResult_idle hoff
      simp only [part, hidle]
      rfl
  meets b hb l hl hon := by
    simp only [frameStmts, List.mem_cons, List.not_mem_nil, or_false] at hb
    rcases hb with rfl | rfl | rfl
    · simp only [part_countRemaining hl]
      exact readInt_meets hl (by simp [frameWire, frameFields]) hon
    · exact readInt_meets hl (by simp [frameWire, frameFields]) hon
    · exact readResult_meets hl hon
  covers l _ := by
    cases hs : l.1.state
    · exact ⟨_, List.mem_cons_self, hs⟩
    · exact ⟨_, List.mem_cons_of_mem _ List.mem_cons_self, hs⟩
    · exact ⟨_, List.mem_cons_of_mem _ (List.mem_cons_of_mem _ List.mem_cons_self), hs⟩
  ordered := Wire.ordered (frameWire newString)

/-! ## One buffer after another -/

/-- The parser between two calls, after `n` bytes. -/
structure FrameParser.Ready (n : Nat) (p : FrameParser τ) : Prop where
  offset_le : p.offset ≤ p.buffer.elim 0 List.length
  length_le : p.buffer.elim 0 List.length ≤ n

theorem FrameParser.Inside.ready {p : FrameParser τ} (hp : p.Inside m) : p.Ready m := by
  obtain ⟨buffer, hbuffer, hle, hlen⟩ := hp
  exact ⟨by rw [hbuffer]; exact hle, by rw [hbuffer]; exact hlen⟩

/-- Whether the buffer is replaced or extended, the new bytes come behind the unparsed ones. -/
theorem FrameParser.Ready.append {p : FrameParser τ} (hp : p.Ready m) (newBuffer : Bytes)
    (hm : m + newBuffer.length < 2147483648) :
    ∃ p', p.append newBuffer = some p' ∧ p'.Inside (m + newBuffer.length) ∧
      p'.unparsed = p.unparsed ++ newBuffer ∧ p'.toFrameContext = p.toFrameContext := by
  have hoffset := hp.offset_le
  have hlength := hp.length_le
  unfold FrameParser.append
  cases hbuffer : p.buffer with
  | none =>
    rw [hbuffer, Option.elim_none] at hoffset
    have hzero : p.offset = 0 := by omega
    refine ⟨_, rfl, ⟨newBuffer, rfl, ?_, ?_⟩, ?_, rfl⟩
    · simp only [hzero]
      exact Nat.zero_le _
    · exact Nat.le_add_left _ _
    · simp [unparsed, hbuffer, hzero]
  | some buffer =>
    rw [hbuffer, Option.elim_some] at hoffset hlength
    by_cases hdone : buffer.length ≤ p.offset
    · have hnil : buffer.drop p.offset = [] := List.drop_eq_nil_of_le hdone
      simp only [if_pos hdone]
      refine ⟨_, rfl, ⟨newBuffer, rfl, Nat.zero_le _, Nat.le_add_left _ _⟩, ?_, rfl⟩
      simp [unparsed, hbuffer, hnil]
    · have hfits : buffer.length + newBuffer.length < 2147483648 := by omega
      simp only [if_neg hdone, appendBuffer, if_pos hfits, Option.map_some]
      refine ⟨_, rfl, ⟨buffer ++ newBuffer, rfl, ?_, ?_⟩, ?_, rfl⟩
      · rw [List.length_append]
        exact Nat.le_trans hoffset (Nat.le_add_right _ _)
      · rw [List.length_append]
        omega
      · simp only [unparsed, hbuffer, Option.getD_some]
        exact List.drop_append_of_le_length hoffset

/-- The loop of `handle` is the loop of `frame_works`. -/
theorem loop_forget (newString : Bytes → τ) (client : Handler κ τ) (n : Nat) (p : FrameParser τ)
    (env : κ) :
    loop (fun _ => true) (body (frameStmts newString client)) n (p, env) =
      (loop (fun _ => true) (seq (stmts newString client)) n ⟨p, 0, env⟩).map
        (Exit.map Handling.forget) :=
  loop_map (fun _ => rfl) (stmts_eq newString client) n ⟨p, 0, env⟩

theorem FrameParser.Inside.passes_le {p : FrameParser τ} (hp : p.Inside m) :
    (3 + 1) * p.unparsed.length + 3 + 2 ≤ p.passes := by
  obtain ⟨buffer, hbuffer, _⟩ := hp
  simp only [passes, unparsed, hbuffer, Option.getD_some, Option.elim_some, List.length_drop]
  omega

theorem handle_ready {p p' : FrameParser τ} (hp : p.Ready m) {newBuffer : Bytes}
    (hm : m + newBuffer.length < 2147483648) {env env' : κ}
    (h : p.handle newString client env newBuffer = some (p', env')) :
    p'.Ready (m + newBuffer.length) := by
  obtain ⟨p₁, happend, hinside, _⟩ := hp.append newBuffer hm
  rw [handle, happend] at h
  have hmap := loop_forget newString client p₁.passes p₁ env
  cases hloop : loop (fun _ => true) (seq (stmts newString client)) p₁.passes ⟨p₁, 0, env⟩ with
  | none => simp [hloop] at h
  | some r =>
    cases r with
    | crash => simp [hloop] at h
    | done l =>
      simp only [hloop, Option.some.injEq, Prod.mk.injEq] at h
      rw [hloop] at hmap
      obtain ⟨hl, _⟩ := frame_works.loop_done (Wire.measure (frameWire newString)) hinside
        (fun hfalse => by cases hfalse) hinside.passes_le hmap
      rw [← h.1]
      exact FrameParser.Inside.ready hl

theorem handle_settles {p : FrameParser τ} (hp : p.Ready m) {newBuffer : Bytes}
    (hm : m + newBuffer.length < 2147483648) {env env' : κ} {os : List (ActResponse τ)}
    {s : FrameContext τ} {us : Bytes}
    (hs : (frameWire newString).decoder.Settles p.toFrameContext (p.unparsed ++ newBuffer) os s us)
    (henv : os.foldlM (notify client) env = some env') :
    ∃ p', p.handle newString client env newBuffer = some (p', env') ∧
      p'.Ready (m + newBuffer.length) ∧ p'.toFrameContext = s ∧ p'.unparsed = us := by
  obtain ⟨p₁, happend, hinside, hunparsed, hctx⟩ := hp.append newBuffer hm
  rw [← hunparsed, ← hctx] at hs
  obtain ⟨l, hloop, hl, hst, hun, hen⟩ := frame_works.loop_settles
    (Wire.measure (frameWire newString)) (l := (p₁, env)) hinside
    (fun hfalse => by cases hfalse) hinside.passes_le hs henv
  have hmap := loop_forget newString client p₁.passes p₁ env
  rw [hloop] at hmap
  obtain ⟨r, hr, hdone⟩ := Option.map_eq_some_iff.mp hmap.symm
  cases r with
  | crash => cases hdone
  | done h =>
    obtain rfl : h.forget = l := Exit.done.inj hdone
    refine ⟨h.parser, ?_, FrameParser.Inside.ready hl, hst, hun⟩
    simp only [handle, happend, hr]
    rw [← hen]
    rfl

theorem handleAll_settles {buffers : List Bytes} {p : FrameParser τ} {env : κ} (hp : p.Ready m)
    (hm : m + buffers.flatten.length < 2147483648)
    (hwaits : (frameWire newString).decoder.Waits p.toFrameContext p.unparsed)
    (hall : ∀ ps, ps <+: buffers.flatten → ∃ os s us env',
      (frameWire newString).decoder.Settles p.toFrameContext (p.unparsed ++ ps) os s us ∧
        os.foldlM (notify client) env = some env') :
    ∃ p' env' os, handleAll newString client buffers p env = some (p', env') ∧
      (frameWire newString).decoder.Settles p.toFrameContext (p.unparsed ++ buffers.flatten) os
        p'.toFrameContext p'.unparsed ∧ os.foldlM (notify client) env = some env' := by
  induction buffers generalizing p env m with
  | nil => exact ⟨p, env, [], rfl, by simpa using ⟨.refl _ _, hwaits⟩, rfl⟩
  | cons newBuffer buffers ih =>
    rw [List.flatten_cons, List.length_append] at hm
    rw [List.flatten_cons] at hall ⊢
    obtain ⟨os₁, s₁, us₁, env₁, hs₁, henv₁⟩ := hall newBuffer (List.prefix_append _ _)
    obtain ⟨p₁, hhandle, hready, rfl, rfl⟩ := handle_settles hp (by omega) hs₁ henv₁
    have hnext : ∀ ps, ps <+: buffers.flatten → ∃ os s us env',
        (frameWire newString).decoder.Settles p₁.toFrameContext (p₁.unparsed ++ ps) os s us ∧
          os.foldlM (notify client) env₁ = some env' := by
      intro ps hps
      obtain ⟨os, s, us, env', hs, henv⟩ := hall (newBuffer ++ ps)
        ((List.prefix_append_right_inj newBuffer).mpr hps)
      rw [← List.append_assoc] at hs
      obtain ⟨os₂, rfl, hs₂⟩ := hs.after (hs₁.1.append ps)
      rw [List.foldlM_append, henv₁] at henv
      exact ⟨os₂, s, us, env', hs₂, henv⟩
    obtain ⟨p', env', os₂, hrest, hs₂, henv₂⟩ := ih hready (by omega) hs₁.2 hnext
    refine ⟨p', env', os₁ ++ os₂, ?_, ?_, ?_⟩
    · rw [handleAll, hhandle]
      exact hrest
    · rw [← List.append_assoc]
      exact hs₁.resume hs₂
    · rw [List.foldlM_append, henv₁]
      exact henv₂

/-! ## The offset -/

theorem readInt_inside {tag : ParserState} {set : FrameContext τ → Int → FrameContext τ}
    {h h' : Handling κ τ} (hp : h.parser.Inside m) (hr : readInt tag set h = .next h') :
    h'.parser.Inside m := by
  obtain ⟨buffer, hbuffer, hle, hlen⟩ := hp
  rcases readInt_next hr with rfl | ⟨n, hn, rfl⟩
  · exact ⟨buffer, hbuffer, hle, hlen⟩
  · refine ⟨buffer, hbuffer, ?_, hlen⟩
    by_contra hout
    simp [hbuffer, getInt, hout] at hn

theorem readResult_inside {h h' : Handling κ τ} (hp : h.parser.Inside m)
    (hr : readResult newString client h = .next h') : h'.parser.Inside m := by
  obtain ⟨buffer, hbuffer, hle, hlen⟩ := hp
  unfold readResult at hr
  split at hr
  · cases hbytes : h.parser.buffer.bind fun buffer =>
        getBytes buffer h.parser.offset (h.parser.offset + h.parser.length) with
    | none => simp [hbytes] at hr
    | some bytes =>
      simp only [hbytes] at hr
      split at hr
      · cases hr
      · simp only [Flow.next.injEq] at hr
        subst hr
        refine ⟨buffer, hbuffer, ?_, hlen⟩
        have hin : (h.parser.offset : Int) + h.parser.length ≤ buffer.length := by
          rw [hbuffer, Option.bind_some, getBytes] at hbytes
          split at hbytes
          · rename_i hbounds
            exact hbounds.2.2
          · cases hbytes
        simp only
        omega
  · split at hr
    · cases hr
    · rw [← Flow.next.inj hr]
      exact ⟨buffer, hbuffer, hle, hlen⟩

theorem moments_inside {h₀ h : Handling κ τ} {todo : List (Handling κ τ → Flow (Handling κ τ))}
    (hmoment : Moments (fun _ => true) (stmts newString client) h₀ todo h)
    (h₀inside : h₀.parser.Inside m) : h.parser.Inside m := by
  have hkeep : ∀ b ∈ stmts newString client, ∀ s s' : Handling κ τ, s.parser.Inside m →
      b s = .next s' → s'.parser.Inside m := by
    intro b hb s s' hs hr
    simp only [stmts, List.mem_cons, List.not_mem_nil, or_false] at hb
    rcases hb with rfl | rfl | rfl | rfl
    · have hbuffer : s.parser.buffer ≠ none := by
        obtain ⟨buffer, hbuffer, _⟩ := hs
        simp [hbuffer]
      rw [countRemaining_eq hbuffer] at hr
      rw [← Flow.next.inj hr]
      exact hs
    · exact readInt_inside hs hr
    · exact readInt_inside hs hr
    · exact readResult_inside hs hr
  exact (hmoment.inv hkeep h₀inside).1

theorem during_inside {buffers : List Bytes} {p q : FrameParser τ} {env : κ} (hp : p.Ready m)
    (hm : m + buffers.flatten.length < 2147483648)
    (h : During newString client buffers p env q) : q.offset ≤ q.buffer.elim 0 List.length := by
  induction h generalizing m with
  | @now newBuffer buffers p p' env todo h happend hmoment =>
    rw [List.flatten_cons, List.length_append] at hm
    obtain ⟨p₁, happend₁, hinside, _⟩ := hp.append newBuffer (by omega)
    obtain rfl : p₁ = p' := Option.some.inj (happend₁.symm.trans happend)
    exact (moments_inside hmoment hinside).ready.offset_le
  | @later newBuffer buffers p p' q env env' hhandle _ ih =>
    rw [List.flatten_cons, List.length_append] at hm
    exact ih (handle_ready hp (by omega) hhandle) (by omega)

/-! ## Frames -/

theorem create_ready : FrameParser.Ready 0 ({} : FrameParser τ) := ⟨Nat.le_refl 0, Nat.le_refl 0⟩

/-- The client is called for the complete frames, one after the other, as long as it does not
throw. -/
theorem handleAll_notified {newString : Bytes → τ} {client : Handler κ τ} {fs : List ActFrame}
    (hfs : ∀ f ∈ fs, f.Sized) {buffers : List Bytes}
    (hstarts : buffers.flatten <+: (fs.map ActFrame.encode).flatten)
    (hlen : buffers.flatten.length < 2147483648) {env env' : κ}
    (hcalls : ((Decoder.complete ActFrame.encode fs buffers.flatten.length).map
      (response newString)).foldlM (notify client) env = some env') :
    ∃ p, handleAll newString client buffers {} env = some (p, env') := by
  have hstart : (frameFraming newString).between ({} : FrameParser τ).toFrameContext := rfl
  have hall : ∀ ps, ps <+: buffers.flatten → ∃ os s us env',
      (frameWire newString).decoder.Settles ({} : FrameParser τ).toFrameContext
          (({} : FrameParser τ).unparsed ++ ps) os s us ∧
        os.foldlM (notify client) env = some env' := by
    intro ps hps
    obtain ⟨s, us, hs⟩ := (frameFraming newString).settle hfs hstart (hps.trans hstarts)
    obtain ⟨later, hlater⟩ := Decoder.complete_mono ActFrame.encode fs hps.length_le
    rw [← hlater, List.map_append, List.foldlM_append] at hcalls
    obtain ⟨env₁, henv₁, _⟩ := Option.bind_eq_some_iff.mp hcalls
    exact ⟨_, s, us, env₁, hs, henv₁⟩
  obtain ⟨p, env₁, os, hrun, hs, henv⟩ := handleAll_settles create_ready (by omega)
    ((frameFraming newString).need_pos _ hstart) hall
  obtain ⟨s, us, hs'⟩ := (frameFraming newString).settle hfs hstart hstarts
  obtain ⟨rfl, _, _⟩ := hs.unique hs'
  obtain rfl := Option.some.inj (hcalls.symm.trans henv)
  exact ⟨p, hrun⟩

/-- A client that returns is called once for each complete frame. -/
theorem handleAll_frames (newString : Bytes → τ) (client : Handler κ τ)
    (call : κ → ActResponse τ → κ)
    (hclient : ∀ env r, client env (.succeeded r) = (call env r, none)) {fs : List ActFrame}
    (hfs : ∀ f ∈ fs, f.Sized) {buffers : List Bytes}
    (hstarts : buffers.flatten <+: (fs.map ActFrame.encode).flatten)
    (hlen : buffers.flatten.length < 2147483648) (env : κ) :
    ∃ p, handleAll newString client buffers {} env = some (p,
      ((Decoder.complete ActFrame.encode fs buffers.flatten.length).map (response newString)).foldl
        call env) := by
  apply handleAll_notified hfs hstarts hlen
  have hnotify : notify client = fun env r => some (call env r) := by
    funext env r
    simp only [notify, hclient]
  rw [hnotify]
  exact List.foldlM_pure

/-- However a prefix of a stream of frames is cut into buffers, `handle` returns after each of
them, the client has been called for exactly the complete frames, and the offset never leaves the
buffer. -/
theorem frame_parser_chunking (newString : Bytes → τ) {fs : List ActFrame}
    (hfs : ∀ f ∈ fs, f.Sized) {buffers : List Bytes}
    (hstarts : buffers.flatten <+: (fs.map ActFrame.encode).flatten)
    (hlen : buffers.flatten.length < 2147483648) :
    (∃ p, handleAll newString record buffers {} [] = some (p,
      (Decoder.complete ActFrame.encode fs buffers.flatten.length).map fun f =>
        .succeeded (response newString f))) ∧
    ∀ q, During newString record buffers {} [] q → q.offset ≤ q.buffer.elim 0 List.length := by
  constructor
  · obtain ⟨p, hp⟩ := handleAll_frames newString record (fun calls r => calls ++ [.succeeded r])
      (fun _ _ => rfl) hfs hstarts hlen []
    have hfold : ∀ (rs : List (ActResponse τ)) (calls : List (AsyncResult τ)),
        rs.foldl (fun calls r => calls ++ [.succeeded r]) calls =
          calls ++ rs.map AsyncResult.succeeded := by
      intro rs
      induction rs with
      | nil => simp
      | cons r rs ih =>
        intro calls
        rw [List.foldl_cons, ih]
        simp
    rw [hfold, List.nil_append, List.map_map] at hp
    exact ⟨p, hp⟩
  · intro q hq
    exact during_inside create_ready (by omega) hq

end

/-- Two frames, the first of them empty, in four buffers; the last of these ends inside the second
frame. -/
theorem frame_parser_chunking_four_buffers :
    ∃ p, FrameParser.handleAll (fun bytes => bytes) record
      [[0, 0, 0], [], [7, 0, 0, 0, 0, 0], [0, 0, 8, 0, 0, 0, 2, 78]] {} [] =
        some (p, [.succeeded ⟨7, some []⟩]) := by
  have hfs : ∀ f ∈ ([⟨7, []⟩, ⟨8, [78, 79]⟩] : List ActFrame), f.Sized := by
    intro f hf
    simp only [List.mem_cons, List.not_mem_nil, or_false] at hf
    rcases hf with rfl | rfl
    · exact ⟨⟨by simp, by simp⟩, by simp⟩
    · exact ⟨⟨by simp, by simp⟩, by simp⟩
  have hstarts : [[0, 0, 0], [], [7, 0, 0, 0, 0, 0], [0, 0, 8, 0, 0, 0, 2, 78]].flatten <+:
      ([⟨7, []⟩, ⟨8, [78, 79]⟩].map ActFrame.encode).flatten := by decide
  obtain ⟨hcalls, _⟩ := frame_parser_chunking (fun bytes => bytes) hfs hstarts (by decide)
  exact hcalls

end PyAgent.Java
