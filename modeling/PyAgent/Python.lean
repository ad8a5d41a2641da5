import PyAgent.Machine
import Mathlib.Algebra.Ring.Nat
import Mathlib.Logic.Function.Basic

/-!
# The Python agents

dubbo.py, utils.py and the provider agent pa.py. A `str` of Python 2 is a byte
string, its integers are unbounded, and `struct` refuses what does not fit. What a
coroutine yields to the loop for is a function of the bytes the stream brings in all.
-/

namespace PyAgent.Python
set_option autoImplicit false

/-! ## struct -/

/-- The last `n` bytes of a number, the highest first. -/
def bigEndian : Nat → Nat → Bytes
  | 0, _ => []
  | n + 1, v => bigEndian n (v / 256) ++ [UInt8.ofNat (v % 256)]

/-- `struct.pack('>Q', v)`; `none` is a `struct.error`. -/
def packQ (v : Int) : Option Bytes :=
  if 0 ≤ v ∧ v < 18446744073709551616 then some (bigEndian 8 v.toNat) else none

/-- `struct.pack('>I', v)` -/
def packI (v : Int) : Option Bytes :=
  if 0 ≤ v ∧ v < 4294967296 then some (bigEndian 4 v.toNat) else none

/-- `bytes2int` of utils.py: `struct.unpack('>I', b)[0]` of four bytes. -/
def bytes2int (b : Bytes) : Nat := b.foldl (fun v c => 256 * v + c.toNat) 0

theorem shiftByte_natCast (v p : Nat) : shiftByte v p = UInt8.ofNat (v / p % 256) := by
  unfold shiftByte
  congr 1

theorem writeInt_eq_bigEndian (v : Nat) : writeInt v = bigEndian 4 v := by
  have hbytes : writeInt v = [UInt8.ofNat (v / 16777216 % 256), UInt8.ofNat (v / 65536 % 256),
      UInt8.ofNat (v / 256 % 256), UInt8.ofNat (v / 1 % 256)] := by
    simp only [writeInt, ← shiftByte_natCast]
    rfl
  simp only [hbytes, bigEndian, Nat.div_div_eq_div_mul, List.nil_append, List.cons_append,
    Nat.div_one]

theorem writeLL_eq_bigEndian (v : Nat) : writeLL v = bigEndian 8 v := by
  have hbytes : writeLL v = [UInt8.ofNat (v / 72057594037927936 % 256),
      UInt8.ofNat (v / 281474976710656 % 256), UInt8.ofNat (v / 1099511627776 % 256),
      UInt8.ofNat (v / 4294967296 % 256), UInt8.ofNat (v / 16777216 % 256),
      UInt8.ofNat (v / 65536 % 256), UInt8.ofNat (v / 256 % 256), UInt8.ofNat (v / 1 % 256)] := by
    simp only [writeLL, ← shiftByte_natCast]
    rfl
  simp only [hbytes, bigEndian, Nat.div_div_eq_div_mul, List.nil_append, List.cons_append,
    Nat.div_one]

theorem packQ_eq {v : Int} (h0 : 0 ≤ v) (h1 : v < 18446744073709551616) :
    packQ v = some (writeLL v) := by
  obtain ⟨n, rfl⟩ := Int.eq_ofNat_of_zero_le h0
  rw [packQ, if_pos ⟨h0, h1⟩, writeLL_eq_bigEndian, Int.toNat_natCast]

theorem packI_eq {v : Int} (h0 : 0 ≤ v) (h1 : v < 4294967296) : packI v = some (writeInt v) := by
  obtain ⟨n, rfl⟩ := Int.eq_ofNat_of_zero_le h0
  rw [packI, if_pos ⟨h0, h1⟩, writeInt_eq_bigEndian, Int.toNat_natCast]

theorem bytes2int_append (bs : Bytes) (c : UInt8) :
    bytes2int (bs ++ [c]) = 256 * bytes2int bs + c.toNat := by
  simp only [bytes2int, List.foldl_append, List.foldl_cons, List.foldl_nil]

theorem bytes2int_bigEndian {n v : Nat} (hv : v < 256 ^ n) : bytes2int (bigEndian n v) = v := by
  induction n generalizing v with
  | zero =>
    obtain rfl : v = 0 := by simpa using hv
    rfl
  | succ n ih =>
    have hdiv : v / 256 < 256 ^ n := by
      apply Nat.div_lt_of_lt_mul
      rw [← Nat.pow_succ']
      exact hv
    rw [bigEndian, bytes2int_append, ih hdiv, UInt8.toNat_ofNat']
    omega

theorem bytes2int_writeInt {v : Nat} (hv : v < 4294967296) : bytes2int (writeInt v) = v := by
  rw [writeInt_eq_bigEndian, bytes2int_bigEndian hv]

/-! ## dubbo.py -/

/-- `"{0}"` and a line feed, formatted. -/
def quoted (s : Bytes) : Bytes := ascii "\"" ++ s ++ ascii "\"\n"

/-- `Request`, with the values `__init__` gives its fields. -/
structure Request where
  id : Int := 0
  interfaceName : Bytes := ascii "com.alibaba.dubbo.performance.demo.provider.IHelloService"
  methodName : Bytes := ascii "hash"
  dubboVersion : Bytes := ascii "2.0.1"
  parameterTypesString : Bytes := ascii "Ljava/lang/String;"
  args : Option Bytes := none
  deriving DecidableEq

def Request.encode (r : Request) : Option Bytes := do
  let id ← packQ r.id
  let bs := [[0xda, 0xbb, 0xc6, 0x00], id, [0x00, 0x00, 0x00, 0x00], quoted r.dubboVersion,
    quoted r.interfaceName, ascii "null\n", quoted r.methodName, quoted r.parameterTypesString,
    quoted (r.args.getD (ascii "None")),
    ascii "\x7b\"path\":\"com.alibaba.dubbo.performance.demo.provider.IHelloService\"\x7d" ++
      ascii "\n"]
  let tlen := (bs.map List.length).sum
  let dataLength ← packI (tlen - 16)
  some (bs.set 2 dataLength).flatten

/-- The lines behind the header. -/
def Request.body (r : Request) : Bytes :=
  quoted r.dubboVersion ++ quoted r.interfaceName ++ ascii "null\n" ++ quoted r.methodName ++
    quoted r.parameterTypesString ++ quoted (r.args.getD (ascii "None")) ++
    (ascii "\x7b\"path\":\"com.alibaba.dubbo.performance.demo.provider.IHelloService\"\x7d" ++
      ascii "\n")

def Request.frame (r : Request) : Bytes :=
  [0xda, 0xbb, 0xc6, 0x00] ++ writeLL r.id ++ writeInt r.body.length ++ r.body

theorem Request.encode_eq (r : Request) : r.encode =
    if (0 ≤ r.id ∧ r.id < 18446744073709551616) ∧ r.body.length < 4294967296 then some r.frame
    else none := by
  unfold encode
  by_cases hid : 0 ≤ r.id ∧ r.id < 18446744073709551616
  · simp only [packQ_eq hid.1 hid.2, Option.bind_eq_bind, Option.bind_some]
    have htlen : ∀ pieces : List Bytes, (pieces.map List.length).sum = 16 + r.body.length →
        (((pieces.map List.length).sum : Nat) : Int) - 16 = r.body.length := by
      intro pieces hsum
      omega
    rw [htlen]
    · by_cases hlen : r.body.length < 4294967296
      · rw [packI_eq (by omega) (by omega), Option.bind_some, if_pos ⟨hid, hlen⟩]
        simp [frame, body]
      · rw [packI, if_neg (by omega), if_neg (fun h => hlen h.2)]
        rfl
    · simp only [body, List.map_cons, List.map_nil, List.sum_cons, List.sum_nil, writeLL_length,
        List.length_append, List.length_cons, List.length_nil]
      omega
  · rw [packQ, if_neg hid, if_neg (fun h => hid h.1)]
    rfl

/-! ## dubbo_client.py -/

/-- The requests that wait for the connection, and what has been written to it. The callbacks do
not matter for what is sent. -/
structure DubboConnection where
  connected : Bool := false
  queue : List Request := []
  stream : Bytes := []
  deriving DecidableEq

namespace DubboConnection

/-- `none` when `encode` raises. -/
def processQueue (conn : DubboConnection) : Option DubboConnection :=
  if conn.connected then
    (conn.queue.mapM Request.encode).map fun frames =>
      { conn with queue := [], stream := conn.stream ++ frames.flatten }
  else some conn

def onConnect (conn : DubboConnection) : Option DubboConnection :=
  processQueue { conn with connected := true }

def fetch (conn : DubboConnection) (r : Request) : Option DubboConnection :=
  processQueue { conn with queue := conn.queue ++ [r] }

/-- What has been written once the connection is up. -/
def sent (conn : DubboConnection) : Option Bytes :=
  (conn.queue.mapM Request.encode).map fun frames => conn.stream ++ frames.flatten

theorem processQueue_sent (conn : DubboConnection) : conn.processQueue.bind sent = conn.sent := by
  cases hconnected : conn.connected with
  | false => simp [processQueue, hconnected]
  | true =>
    cases hframes : conn.queue.mapM Request.encode with
    | none => simp [processQueue, sent, hconnected, hframes]
    | some frames => simp [processQueue, sent, hconnected, hframes]

theorem fetch_sent (conn : DubboConnection) (r : Request) : (conn.fetch r).bind sent =
    conn.sent.bind fun bs => r.encode.map fun frame => bs ++ frame := by
  rw [fetch, processQueue_sent]
  cases hframes : conn.queue.mapM Request.encode with
  | none => simp [sent, hframes]
  | some frames => cases hframe : r.encode <;> simp [sent, hframes, hframe]

theorem foldlM_fetch_sent (rs : List Request) (conn : DubboConnection) :
    (rs.foldlM fetch conn).bind sent =
      conn.sent.bind fun bs => (rs.mapM Request.encode).map fun frames => bs ++ frames.flatten := by
  induction rs generalizing conn with
  | nil => cases hsent : conn.sent <;> simp [hsent]
  | cons r rs ih =>
    have hstep : ((r :: rs).foldlM fetch conn).bind sent =
        (conn.fetch r).bind fun conn' => (rs.foldlM fetch conn').bind sent := by
      rw [List.foldlM_cons, Option.bind_eq_bind, Option.bind_assoc]
    have hrest : (conn.fetch r).bind (fun conn' => (rs.foldlM fetch conn').bind sent) =
        ((conn.fetch r).bind sent).bind fun bs =>
          (rs.mapM Request.encode).map fun frames => bs ++ frames.flatten := by
      rw [Option.bind_assoc]
      exact congrArg _ (funext ih)
    rw [hstep, hrest, fetch_sent, Option.bind_assoc]
    congr 1
    funext bs
    cases hframe : r.encode with
    | none => simp [hframe]
    | some frame => cases hframes : rs.mapM Request.encode <;> simp [hframe, hframes]

end DubboConnection

/-! ## pa.py -/

/-- `stream.read_bytes(n)`; `none` is a `StreamClosedError`. -/
def readBytes (n : Nat) (stream : Bytes) : Option (Bytes × Bytes) :=
  if n ≤ stream.length then some (stream.take n, stream.drop n) else none

/-- A length and as many bytes. -/
def readSized (stream : Bytes) : Option (Bytes × Bytes) := do
  let (len, stream) ← readBytes 4 stream
  readBytes (bytes2int len) stream

structure ActRequest where
  interface : Bytes := []
  method : Bytes := []
  parameterTypesString : Bytes := []
  id : Nat := 0
  parameter : Bytes := []
  deriving DecidableEq

structure ChannelKey where
  interface : Bytes
  method : Bytes
  pts : Bytes
  deriving DecidableEq

def makeRequest (key : ChannelKey) (id : Nat) : ActRequest where
  interface := key.interface
  method := key.method
  parameterTypesString := key.pts
  id := id

/-- The parameter types are not among the fields it sets. -/
def makeDubboRequest (request : ActRequest) : Request where
  id := request.id
  interfaceName := request.interface
  methodName := request.method
  args := some request.parameter

/-- The channel map; a key that is not in it gets a new client. -/
def PAServer := ChannelKey → Option DubboConnection

def PAServer.channel (server : PAServer) (key : ChannelKey) : DubboConnection :=
  (server key).getD {}

def PAServer.setChannel (server : PAServer) (key : ChannelKey) (conn : DubboConnection) :
    PAServer :=
  Function.update server key (some conn)

/-- The beginning of `handle_stream`: it ends without a key at the end of the stream or at another
magic number. -/
def readKey (stream : Bytes) : Option (ChannelKey × Bytes) := do
  let (magicNumber, stream) ← readBytes 2 stream
  if magicNumber = [0xab, 0xcd] then
    let (interface, stream) ← readSized stream
    let (method, stream) ← readSized stream
    let (pts, stream) ← readSized stream
    some (⟨interface, method, pts⟩, stream)
  else none

def readRequest (key : ChannelKey) (stream : Bytes) : Option (ActRequest × Bytes) := do
  let (id, stream) ← readBytes 4 stream
  let (parameter, stream) ← readSized stream
  some ({ makeRequest key (bytes2int id) with parameter := parameter }, stream)

theorem readBytes_length {n : Nat} {stream bs rest : Bytes}
    (h : readBytes n stream = some (bs, rest)) : rest.length + n = stream.length := by
  unfold readBytes at h
  split at h
  · obtain ⟨_, rfl⟩ := Prod.mk.inj (Option.some.inj h)
    rw [List.length_drop]
    omega
  · cases h

theorem readSized_length {stream bs rest : Bytes} (h : readSized stream = some (bs, rest)) :
    rest.length + 4 ≤ stream.length := by
  obtain ⟨⟨len, stream'⟩, hlen, hbs⟩ := Option.bind_eq_some_iff.mp h
  have := readBytes_length hlen
  have := readBytes_length hbs
  omega

theorem readRequest_length {key : ChannelKey} {stream rest : Bytes} {r : ActRequest}
    (h : readRequest key stream = some (r, rest)) : rest.length < stream.length := by
  obtain ⟨⟨id, stream'⟩, hid, h⟩ := Option.bind_eq_some_iff.mp h
  obtain ⟨⟨parameter, stream''⟩, hparameter, h⟩ := Option.bind_eq_some_iff.mp h
  obtain ⟨_, rfl⟩ := Prod.mk.inj (Option.some.inj h)
  have := readBytes_length hid
  have := readSized_length hparameter
  omega

/-- `while True`, until the stream is closed. -/
def serve (key : ChannelKey) (stream : Bytes) (conn : DubboConnection) : Option DubboConnection :=
  match _h : readRequest key stream with
  | none => some conn
  | some (request, rest) => (conn.fetch (makeDubboRequest request)).bind (serve key rest)
termination_by stream.length
decreasing_by exact readRequest_length ‹_›

/-- `none` when an exception other than `StreamClosedError` leaves it. -/
def handleStream (server : PAServer) (stream : Bytes) : Option PAServer :=
  match readKey stream with
  | none => some server
  | some (key, rest) =>
    (serve key rest (server.channel key)).map (server.setChannel key)

@[simp] theorem PAServer.channel_setChannel (server : PAServer) (key : ChannelKey)
    (conn : DubboConnection) : (server.setChannel key conn).channel key = conn := by
  have hself : server.setChannel key conn key = some conn := Function.update_self key _ server
  rw [channel, hself]
  rfl

theorem serve_none {key : ChannelKey} {stream : Bytes} (h : readRequest key stream = none)
    (conn : DubboConnection) : serve key stream conn = some conn := by
  rw [serve]
  split
  · rfl
  · rename_i h'
    rw [h] at h'
    cases h'

theorem serve_some {key : ChannelKey} {stream rest : Bytes} {request : ActRequest}
    (h : readRequest key stream = some (request, rest)) (conn : DubboConnection) :
    serve key stream conn = (conn.fetch (makeDubboRequest request)).bind (serve key rest) := by
  rw [serve]
  split
  · rename_i h'
    rw [h] at h'
    cases h'
  · rename_i h'
    obtain ⟨rfl, rfl⟩ := Prod.mk.inj (Option.some.inj (h.symm.trans h'))
    rfl

/-! ## Whole streams -/

theorem readBytes_append {n : Nat} {bs : Bytes} (hn : bs.length = n) (rest : Bytes) :
    readBytes n (bs ++ rest) = some (bs, rest) := by
  rw [readBytes, if_pos (by rw [List.length_append]; omega), List.take_left' hn,
    List.drop_left' hn]

theorem readSized_append {bs : Bytes} (hlt : bs.length < 4294967296) (rest : Bytes) :
    readSized (writeInt bs.length ++ bs ++ rest) = some (bs, rest) := by
  have hlen : readBytes 4 (writeInt bs.length ++ (bs ++ rest)) =
      some (writeInt bs.length, bs ++ rest) := readBytes_append (writeInt_length _) _
  simp only [List.append_assoc, readSized, hlen, Option.bind_eq_bind, Option.bind_some,
    bytes2int_writeInt hlt]
  exact readBytes_append rfl rest

end PyAgent.Python
