import PyAgent.DubboClient
import PyAgent.PythonCallRuns
import PyAgent.PythonConsumer

/-!
# What the connections of the Python agents send and read

act.py and dubbo.py as the two connections use them. An act response is what
`encode_body` makes of it, and nothing else is read as one; of a Dubbo response the
magic number, the id and the length count.
-/

namespace PyAgent.Python
set_option autoImplicit false

open Streaming

/-! ## Numbers -/

theorem bytes2int_lt (bs : Bytes) : bytes2int bs < 256 ^ bs.length := by
  induction bs using List.reverseRecOn with
  | nil => simp [bytes2int]
  | append_singleton bs c ih =>
    rw [bytes2int_append, List.length_append, List.length_singleton, Nat.pow_succ]
    have hc := c.toNat_lt
    omega

theorem bigEndian_bytes2int (bs : Bytes) : bigEndian bs.length (bytes2int bs) = bs := by
  induction bs using List.reverseRecOn with
  | nil => rfl
  | append_singleton bs c ih =>
    have hc := c.toNat_lt
    rw [List.length_append, List.length_singleton, bigEndian, bytes2int_append,
      show (256 * bytes2int bs + c.toNat) / 256 = bytes2int bs by omega,
      show (256 * bytes2int bs + c.toNat) % 256 = c.toNat by omega, ih, UInt8.ofNat_toNat]

/-- Four bytes are the number they are read as. -/
theorem packI_bytes2int {bs : Bytes} (h : bs.length = 4) : packI (bytes2int bs) = some bs := by
  have hlt := bytes2int_lt bs
  have hbs := bigEndian_bytes2int bs
  rw [h] at hlt hbs
  rw [packI, if_pos ⟨by omega, by omega⟩, Int.toNat_natCast, hbs]

theorem packI_eq_some_iff {n : Nat} {bs : Bytes} :
    packI n = some bs ↔ n < 4294967296 ∧ writeInt n = bs := by
  unfold packI
  split
  · rename_i h
    rw [Int.toNat_natCast, ← writeInt_eq_bigEndian, Option.some.injEq]
    exact ⟨fun heq => ⟨by omega, heq⟩, fun heq => heq.2⟩
  · rename_i h
    constructor
    · intro heq
      cases heq
    · intro heq
      omega

/-! ## act.py -/

/-- The length of a field, and the field. -/
def sized (field : Bytes) : Option Bytes := (packI field.length).map (· ++ field)

def encodeBody (id : Nat) (field : Bytes) : Option Bytes := do
  let id ← packI id
  let field ← sized field
  some (id ++ field)

def ActRequest.encodeBody (r : ActRequest) : Option Bytes := Python.encodeBody r.id r.parameter

def ActResponse.encodeBody (r : ActResponse) : Option Bytes := Python.encodeBody r.id r.result

/-- `encode_act_key` of pa_client.py -/
def encodeActKey (key : ChannelKey) : Option Bytes := do
  let interface ← sized key.interface
  let method ← sized key.method
  let pts ← sized key.pts
  some (interface ++ method ++ pts)

theorem sized_eq_some_iff {field bs : Bytes} :
    sized field = some bs ↔ field.length < 4294967296 ∧ writeInt field.length ++ field = bs := by
  rw [sized, Option.map_eq_some_iff]
  constructor
  · intro h
    obtain ⟨len, hlen, rfl⟩ := h
    obtain ⟨hlt, rfl⟩ := packI_eq_some_iff.mp hlen
    exact ⟨hlt, rfl⟩
  · intro h
    obtain ⟨hlt, rfl⟩ := h
    exact ⟨_, packI_eq_some_iff.mpr ⟨hlt, rfl⟩, rfl⟩

theorem encodeBody_eq_some_iff {id : Nat} {field bs : Bytes} :
    encodeBody id field = some bs ↔ (id < 4294967296 ∧ field.length < 4294967296) ∧
      writeInt id ++ (writeInt field.length ++ field) = bs := by
  unfold encodeBody
  constructor
  · intro h
    obtain ⟨idBytes, hid, h⟩ := Option.bind_eq_some_iff.mp h
    obtain ⟨body, hbody, h⟩ := Option.bind_eq_some_iff.mp h
    obtain ⟨hlt, rfl⟩ := packI_eq_some_iff.mp hid
    obtain ⟨hlen, rfl⟩ := sized_eq_some_iff.mp hbody
    exact ⟨⟨hlt, hlen⟩, Option.some.inj h⟩
  · intro h
    obtain ⟨⟨hlt, hlen⟩, rfl⟩ := h
    rw [packI_eq_some_iff.mpr ⟨hlt, rfl⟩, sized_eq_some_iff.mpr ⟨hlen, rfl⟩]
    rfl

theorem encodeActKey_eq_some_iff {key : ChannelKey} {bs : Bytes} :
    encodeActKey key = some bs ↔ (key.interface.length < 4294967296 ∧
      key.method.length < 4294967296 ∧ key.pts.length < 4294967296) ∧
      writeInt key.interface.length ++ key.interface ++
        (writeInt key.method.length ++ key.method) ++
        (writeInt key.pts.length ++ key.pts) = bs := by
  unfold encodeActKey
  constructor
  · intro h
    obtain ⟨_, hinterface, h⟩ := Option.bind_eq_some_iff.mp h
    obtain ⟨_, hmethod, h⟩ := Option.bind_eq_some_iff.mp h
    obtain ⟨_, hpts, h⟩ := Option.bind_eq_some_iff.mp h
    obtain ⟨hlt, rfl⟩ := sized_eq_some_iff.mp hinterface
    obtain ⟨hlt', rfl⟩ := sized_eq_some_iff.mp hmethod
    obtain ⟨hlt'', rfl⟩ := sized_eq_some_iff.mp hpts
    exact ⟨⟨hlt, hlt', hlt''⟩, Option.some.inj h⟩
  · intro h
    obtain ⟨⟨hinterface, hmethod, hpts⟩, rfl⟩ := h
    rw [sized_eq_some_iff.mpr ⟨hinterface, rfl⟩, sized_eq_some_iff.mpr ⟨hmethod, rfl⟩,
      sized_eq_some_iff.mpr ⟨hpts, rfl⟩]
    rfl

/-! ## pa_client.py -/

/-- The read callback of a `PAConnection`, with `pepv_act_resp` once it has an id. -/
inductive PAReading where
  | onId
  | onRlen (id : Nat)
  | onResBody (id n : Nat)

def paProtocol (key : ChannelKey) : Protocol ActRequest PAReading ActResponse where
  id r := r.id
  responseId resp := resp.id
  encode := ActRequest.encodeBody
  greeting := (encodeActKey key).map ([0xab, 0xcd] ++ ·)
  first := .onId
  numBytes
    | .onId => 4
    | .onRlen _ => 4
    | .onResBody _ n => n
  take
    | .onId, data => .head (bytes2int data) (.onRlen (bytes2int data))
    | .onRlen id, data => .next (.onResBody id (bytes2int data))
    | .onResBody id _, data => .response id ⟨id, data⟩

theorem paProtocol_greeting (key : ChannelKey) :
    (paProtocol key).greeting = (encodeActKey key).map fun bs => [0xab, 0xcd] ++ bs := by
  unfold paProtocol
  with_reducible rfl

/-- What a `PAConnection` reads as a response is what `encode_body` makes of it. -/
theorem paFrame_iff {key : ChannelKey} {id : Int} {v : ActResponse} {bs : Bytes} :
    (paProtocol key).Frame id v bs ↔ (v.id : Int) = id ∧ v.encodeBody = some bs := by
  constructor
  · intro h
    obtain ⟨hd, tl, s, rfl, hlen, htake, hrest⟩ := h
    obtain ⟨hid, rfl⟩ := Took.head.inj htake
    cases hrest with
    | last _ hlast => cases hlast
    | more hlen' hnext hrest =>
      obtain rfl := Took.next.inj hnext
      cases hrest with
      | more _ hlast _ => cases hlast
      | last hbody hlast =>
        obtain ⟨_, rfl⟩ := Took.response.inj hlast
        refine ⟨hid, ?_⟩
        have hpack := packI_bytes2int (Eq.symm hlen)
        have hpack' := packI_bytes2int (Eq.symm hlen')
        rw [show bytes2int _ = _ from hbody] at hpack'
        simp only [ActResponse.encodeBody, encodeBody, sized, hpack, hpack', Option.map_some,
          Option.bind_eq_bind, Option.bind_some]
  · intro h
    obtain ⟨rfl, h⟩ := h
    obtain ⟨⟨hid, hlen⟩, rfl⟩ := encodeBody_eq_some_iff.mp h
    have hread := bytes2int_writeInt hid
    refine ⟨writeInt v.id, _, .onRlen v.id, rfl, rfl, ?_, .more rfl rfl (.last ?_ rfl)⟩
    · simp only [paProtocol, hread]
    · exact bytes2int_writeInt hlen

theorem paProtocol_lawful (key : ChannelKey) : (paProtocol key).Lawful :=
  ⟨Nat.zero_lt_succ 3, fun h => (paFrame_iff.mp h).1⟩

/-! ## dubbo_client.py -/

/-- `Response`, with the values `__init__` gives its fields. -/
structure Response where
  id : Nat := 0
  result : Bytes := []
  dataLen : Nat := 0
  deriving DecidableEq

/-- A slice of eight bytes is read as a slice of four is. -/
def Response.decodeHeader (r : Response) (bts : Bytes) : Response :=
  if bts[0]? = some 0xda ∧ bts[1]? = some 0xbb then
    { r with id := bytes2int ((bts.drop 4).take 8), dataLen := bytes2int ((bts.drop 12).take 4) }
  else r

def Response.decodeBody (r : Response) (bts : Bytes) : Response := { r with result := bts }

/-- The read callback of a `DubboConnection`, with `prev_response` once it has a header. -/
inductive DubboReading where
  | onHeader
  | onBody (resp : Response)

def dubboProtocol : Protocol Request DubboReading Response where
  id := Request.id
  responseId resp := resp.id
  encode := Request.encode
  greeting := some []
  first := .onHeader
  numBytes
    | .onHeader => 16
    | .onBody resp => resp.dataLen
  take
    | .onHeader, data =>
      .head (({} : Response).decodeHeader data).id (.onBody (({} : Response).decodeHeader data))
    | .onBody resp, data => .response resp.id (resp.decodeBody data)

theorem decodeHeader_dataLen_lt (bts : Bytes) :
    (({} : Response).decodeHeader bts).dataLen < 4294967296 := by
  unfold Response.decodeHeader
  split
  · have hlt := bytes2int_lt ((bts.drop 12).take 4)
    have hpow : 256 ^ ((bts.drop 12).take 4).length ≤ 256 ^ 4 :=
      Nat.pow_le_pow_right (by omega) (by rw [List.length_take]; omega)
    exact Nat.lt_of_lt_of_le hlt hpow
  · exact Nat.zero_lt_succ _

/-- A response carries the id it was found by, and its length is a number of four bytes. -/
theorem dubboFrame_response {id : Int} {v : Response} {bs : Bytes}
    (h : dubboProtocol.Frame id v bs) : (v.id : Int) = id ∧ v.result.length < 4294967296 := by
  obtain ⟨hd, tl, s, rfl, hlen, htake, hrest⟩ := h
  obtain ⟨hid, rfl⟩ := Took.head.inj htake
  cases hrest with
  | more _ hlast _ => cases hlast
  | last hbody hlast =>
    obtain ⟨_, rfl⟩ := Took.response.inj hlast
    refine ⟨hid, ?_⟩
    rw [show (Response.decodeBody _ tl).result.length = _ from hbody.symm]
    exact decodeHeader_dataLen_lt hd

theorem dubboProtocol_lawful : dubboProtocol.Lawful :=
  ⟨Nat.zero_lt_succ 15, fun h => (dubboFrame_response h).1⟩

theorem dubboFrame_encode {f : DubboFrame} (hid : 0 ≤ f.id) (hlt : f.id < 18446744073709551616)
    (hlen : f.payload.length < 4294967296) :
    dubboProtocol.Frame f.id ⟨f.id.toNat, f.payload, f.payload.length⟩ f.encode := by
  obtain ⟨n, hn⟩ := Int.eq_ofNat_of_zero_le hid
  let hd : Bytes := [0xda, 0xbb, f.flags.1, f.flags.2] ++ writeLL n ++ writeInt f.payload.length
  have hheader : ({} : Response).decodeHeader hd = ⟨n, [], f.payload.length⟩ := by
    have hmagic : hd[0]? = some 0xda ∧ hd[1]? = some 0xbb := ⟨rfl, rfl⟩
    have hid' : (hd.drop 4).take 8 = writeLL n := rfl
    have hlen' : (hd.drop 12).take 4 = writeInt f.payload.length := rfl
    rw [Response.decodeHeader, if_pos hmagic, hid', hlen', bytes2int_writeInt hlen,
      writeLL_eq_bigEndian, bytes2int_bigEndian (by omega)]
  refine ⟨hd, f.payload, .onBody ⟨n, [], f.payload.length⟩, ?_, rfl, ?_, .last rfl ?_⟩
  · rw [DubboFrame.encode, hn]
  · simp only [dubboProtocol, hheader, hn]
  · simp only [dubboProtocol, Response.decodeBody, hn, Int.toNat_natCast]

/-! ## Both connections -/

/-- The loop in between may be anything: in every run of a connection whose requests have ids that
are not in `_callbacks`, nothing is lost or answered twice, each callback gets the response to its
own request, and nothing raises an exception. -/
theorem connections_sound {γ : Type} :
    (∀ key (x : Talk ActRequest PAReading ActResponse γ), Talk.Reached (paProtocol key) x →
      Talk.Sound (paProtocol key) x) ∧
    (∀ x : Talk Request DubboReading Response γ, Talk.Reached dubboProtocol x →
      Talk.Sound dubboProtocol x) :=
  ⟨fun key _ h => h.sound (paProtocol_lawful key), fun _ h => h.sound dubboProtocol_lawful⟩

/-! ## Two requests -/

def paReply (ticket id : Nat) (result : Bytes) : Reply ActResponse :=
  ⟨ticket, ⟨id, result⟩, writeInt id ++ (writeInt result.length ++ result)⟩

def dubboReply (ticket id : Nat) (result : Bytes) : Reply Response :=
  ⟨ticket, ⟨id, result, result.length⟩, DubboFrame.encode ⟨(0, 0), id, result⟩⟩

def checkPaFrame (id : Int) (r : Reply ActResponse) : Bool :=
  decide ((r.value.id : Int) = id ∧ r.value.encodeBody = some r.bytes)

/-- A response that is what `dubboReply` makes of its ticket, its id and its result. -/
def checkDubboFrame (id : Int) (r : Reply Response) : Bool :=
  decide ((r.value.id : Int) = id ∧
    r.value = (dubboReply r.ticket r.value.id r.value.result).value ∧
    r.bytes = (dubboReply r.ticket r.value.id r.value.result).bytes ∧
    r.value.id < 18446744073709551616 ∧ r.value.result.length < 4294967296)

theorem paFrame_of_check {key : ChannelKey} (id : Int) (r : Reply ActResponse)
    (h : checkPaFrame id r = true) : (paProtocol key).Frame id r.value r.bytes :=
  paFrame_iff.mpr (of_decide_eq_true h)

theorem dubboFrame_of_check (id : Int) (r : Reply Response) (h : checkDubboFrame id r = true) :
    dubboProtocol.Frame id r.value r.bytes := by
  obtain ⟨hid, hvalue, hbytes, hlt, hlen⟩ := of_decide_eq_true h
  have hframe : dubboProtocol.Frame (r.value.id : Int)
      (dubboReply r.ticket r.value.id r.value.result).value
      (dubboReply r.ticket r.value.id r.value.result).bytes :=
    dubboFrame_encode (f := ⟨(0, 0), r.value.id, r.value.result⟩) (Int.natCast_nonneg _)
      (show (r.value.id : Int) < 18446744073709551616 by omega) hlen
  rw [← hvalue, ← hbytes, hid] at hframe
  exact hframe

/-- Two requests wait for a connection, two responses come in two pieces, and some of their fields
are read. -/
def twoFetches {ρ ν : Type} (r r' : ρ) (reply reply' : Reply ν) (reads : Nat) :
    List (Talk.Event ρ ν Nat) :=
  [.fetch r 10, .fetch r' 20, .connect, .reply reply, .reply reply', .receive 6, .receive 100] ++
    List.replicate reads .readCallback

/-- On both connections the later request is answered first. -/
theorem connections_sound_two_requests :
    (∃ x : Talk ActRequest PAReading ActResponse Nat, Talk.Reached (paProtocol ⟨[], [], []⟩) x ∧
      x.conn.called = [(20, ⟨2, [67]⟩), (10, ⟨1, []⟩)] ∧ Talk.Sound (paProtocol ⟨[], [], []⟩) x) ∧
    ∃ x : Talk Request DubboReading Response Nat, Talk.Reached dubboProtocol x ∧
      x.conn.called = [(20, ⟨2, [67], 1⟩), (10, ⟨1, [], 0⟩)] ∧ Talk.Sound dubboProtocol x := by
  constructor
  · have hrun : ((twoFetches (⟨[], [], [], 1, [65]⟩ : ActRequest) ⟨[], [], [], 2, [66]⟩
        (paReply 1 2 [67]) (paReply 0 1 []) 6).foldlM
        (fun x e => if Talk.checkAllowed checkPaFrame (paProtocol ⟨[], [], []⟩) x e then
          Talk.step (paProtocol ⟨[], [], []⟩) x e else none)
        (Talk.start _ _ _ _)).map (fun x => x.conn.called) =
        some [(20, ⟨2, [67]⟩), (10, ⟨1, []⟩)] := by decide +kernel
    obtain ⟨x, hreached, hcalled⟩ := Runs.exists_of_foldlM
      (fun _ _ _ => Talk.allowed_of_check paFrame_of_check) hrun
    exact ⟨x, hreached, hcalled, connections_sound.1 _ x hreached⟩
  · have hrun : ((twoFetches (makeDubboRequest ⟨[], [], [], 1, [65]⟩)
        (makeDubboRequest ⟨[], [], [], 2, [66]⟩) (dubboReply 1 2 [67]) (dubboReply 0 1 []) 4).foldlM
        (fun x e => if Talk.checkAllowed checkDubboFrame dubboProtocol x e then
          Talk.step dubboProtocol x e else none)
        (Talk.start _ _ _ _)).map (fun x => x.conn.called) =
        some [(20, ⟨2, [67], 1⟩), (10, ⟨1, [], 0⟩)] := by decide +kernel
    obtain ⟨x, hreached, hcalled⟩ := Runs.exists_of_foldlM
      (fun _ _ _ => Talk.allowed_of_check dubboFrame_of_check) hrun
    exact ⟨x, hreached, hcalled, connections_sound.2 x hreached⟩

/-- Two requests with one id: the callback of the second is called with the response to the first,
and the response to the second raises a `KeyError`. -/
theorem shared_id_misanswered : ∃ x : Talk ActRequest PAReading ActResponse Nat,
    Runs (Talk.Regular (paProtocol ⟨[], [], []⟩)) (Talk.step (paProtocol ⟨[], [], []⟩))
        (Talk.start _ _ _ _) x ∧
      x.issued.map Prod.snd = [10, 20] ∧ x.served.map Reply.ticket = [0] ∧
      x.conn.called = [(20, ⟨1, [67]⟩)] ∧ Talk.Can (paProtocol ⟨[], [], []⟩) x .readCallback ∧
      x.step (paProtocol ⟨[], [], []⟩) .readCallback = none ∧
      ¬ Talk.Sound (paProtocol ⟨[], [], []⟩) x := by
  have hrun : ((twoFetches (⟨[], [], [], 1, [65]⟩ : ActRequest) ⟨[], [], [], 1, [66]⟩
      (paReply 0 1 [67]) (paReply 1 1 [68]) 3).foldlM
      (fun x e => if Talk.checkRegular checkPaFrame (paProtocol ⟨[], [], []⟩) x e then
        Talk.step (paProtocol ⟨[], [], []⟩) x e else none)
      (Talk.start _ _ _ _)).map (fun x => (x.issued.map Prod.snd, x.served.map Reply.ticket,
        x.conn.called, x.canRead (paProtocol ⟨[], [], []⟩) &&
          (x.step (paProtocol ⟨[], [], []⟩) .readCallback).isNone)) =
      some ([10, 20], [0], [(20, ⟨1, [67]⟩)], true) := by decide +kernel
  obtain ⟨x, hruns, hx⟩ := Runs.exists_of_foldlM
    (fun _ _ _ => Talk.regular_of_check paFrame_of_check) hrun
  simp only [Prod.mk.injEq, Bool.and_eq_true, Option.isNone_iff_eq_none] at hx
  obtain ⟨hissued, hserved, hcalled, hread, hraises⟩ := hx
  have hcan := Talk.can_of_canRead hread
  refine ⟨x, hruns, hissued, hserved, hcalled, hcan, hraises, ?_⟩
  intro hsound
  have hsome := hsound.returns .readCallback hcan ⟨trivial, trivial⟩
  rw [hraises] at hsome
  cases hsome

end PyAgent.Python
