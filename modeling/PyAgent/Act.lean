import PyAgent.Machine

/-!
# The act protocol

The records of act.h, pa_client.h and dubbo_client.h and the encoders on both sides
of an act connection: `_pa_encode_act_key` and `_pa_act_request_encode` write what
the provider agent reads, `encode_act_response` what it answers. An encoder stores
its fields one behind the other and `total_len` counts exactly those bytes.
-/

namespace PyAgent
set_option autoImplicit false

structure ActReuseKey where
  interface : Bytes
  interfaceLen : Int
  method : Bytes
  methodLen : Int
  pts : Bytes
  ptsLen : Int
  deriving DecidableEq

/-- The consumer agent fills in the last three fields only. -/
structure ActRequest where
  interface : Bytes := []
  interfaceLen : Int := 0
  method : Bytes := []
  methodLen : Int := 0
  parameterTypesString : Bytes := []
  ptsLen : Int := 0
  id : Int
  pLen : Int
  parameter : Bytes
  deriving DecidableEq

structure ActResponse where
  id : Int
  dataLen : Int
  result : Bytes
  deriving DecidableEq

structure DubboRequest where
  id : Int
  interfaceName : Bytes
  interfaceLen : Int
  methodName : Bytes
  methodLen : Int
  dubboVersion : Bytes
  dubboVersionLen : Int
  parameterTypesString : Bytes
  ptsLen : Int
  args : Bytes
  argsLen : Int
  twoWay : Int
  deriving DecidableEq

structure DubboResponse where
  id : Int
  dataLen : Int
  result : Bytes
  deriving DecidableEq

def paEncodeActKey (key : ActReuseKey) : Bytes :=
  [0xab, 0xcd] ++ writeInt key.interfaceLen ++ strncpy key.interface key.interfaceLen.toNat ++
    writeInt key.methodLen ++ strncpy key.method key.methodLen.toNat ++
    writeInt key.ptsLen ++ strncpy key.pts key.ptsLen.toNat

def paActRequestEncode (request : ActRequest) : Bytes :=
  writeInt request.id ++ writeInt request.pLen ++ strncpy request.parameter request.pLen.toNat

/-- The id is narrowed from `long long` to `int`. -/
def actResponseFromDubbo (resp : DubboResponse) : ActResponse :=
  ⟨toInt32 resp.id, resp.dataLen, resp.result⟩

def encodeActResponse (resp : ActResponse) : Bytes :=
  writeInt resp.id ++ writeInt resp.dataLen ++ strncpy resp.result resp.dataLen.toNat

def actResponseDataLength (resp : ActResponse) : Int := 8 + resp.dataLen

def dubboRequestFromAct (act : ActRequest) : DubboRequest where
  id := act.id
  interfaceName := act.interface
  interfaceLen := act.interfaceLen
  methodName := act.method
  methodLen := act.methodLen
  dubboVersion := ascii "2.0.1"
  dubboVersionLen := 5
  parameterTypesString := act.parameterTypesString
  ptsLen := act.ptsLen
  args := act.parameter
  argsLen := act.pLen
  twoWay := 1

/-! ## Requests and keys that a consumer agent can build -/

/-- The lengths are those of the byte strings, and `total_len` is an `int`. -/
structure ActReuseKey.Wf (key : ActReuseKey) : Prop where
  interfaceLen : key.interfaceLen = key.interface.length
  methodLen : key.methodLen = key.method.length
  ptsLen : key.ptsLen = key.pts.length
  totalLen : 4 + key.interfaceLen + 4 + key.methodLen + 4 + key.ptsLen + 2 < 2147483648

instance (key : ActReuseKey) : Decidable key.Wf :=
  decidable_of_iff (key.interfaceLen = key.interface.length ∧ key.methodLen = key.method.length ∧
    key.ptsLen = key.pts.length ∧
    4 + key.interfaceLen + 4 + key.methodLen + 4 + key.ptsLen + 2 < 2147483648)
    ⟨fun ⟨hi, hm, ht, hlt⟩ => ⟨hi, hm, ht, hlt⟩, fun ⟨hi, hm, ht, hlt⟩ => ⟨hi, hm, ht, hlt⟩⟩

structure ActRequest.Wf (request : ActRequest) : Prop where
  id : IsInt32 request.id
  pLen : request.pLen = request.parameter.length
  totalLen : 4 + 4 + request.pLen < 2147483648

instance (request : ActRequest) : Decidable request.Wf :=
  decidable_of_iff (IsInt32 request.id ∧ request.pLen = request.parameter.length ∧
    4 + 4 + request.pLen < 2147483648)
    ⟨fun ⟨hid, hlen, hlt⟩ => ⟨hid, hlen, hlt⟩, fun ⟨hid, hlen, hlt⟩ => ⟨hid, hlen, hlt⟩⟩

structure ActResponse.Wf (resp : ActResponse) : Prop where
  id : IsInt32 resp.id
  dataLen : resp.dataLen = resp.result.length
  totalLen : actResponseDataLength resp < 2147483648

/-! ## Keys and requests with any bytes in their fields -/

def ActReuseKey.raw (key : ActReuseKey) : Bytes :=
  [0xab, 0xcd] ++ writeInt key.interfaceLen ++ key.interface ++ writeInt key.methodLen ++
    key.method ++ writeInt key.ptsLen ++ key.pts

def ActRequest.raw (request : ActRequest) : Bytes :=
  writeInt request.id ++ writeInt request.pLen ++ request.parameter

structure ActReuseKey.Sized (key : ActReuseKey) : Prop where
  interfaceLen : key.interfaceLen = key.interface.length
  methodLen : key.methodLen = key.method.length
  ptsLen : key.ptsLen = key.pts.length
  interface_lt : key.interface.length < 2147483648
  method_lt : key.method.length < 2147483648
  pts_lt : key.pts.length < 2147483648

structure ActRequest.Sized (request : ActRequest) : Prop where
  id : IsInt32 request.id
  pLen : request.pLen = request.parameter.length
  parameter_lt : request.parameter.length < 2147483648

/-- The longest field, in bytes. -/
def ActReuseKey.width (key : ActReuseKey) : Nat :=
  max 4 (max key.interface.length (max key.method.length key.pts.length))

def ActRequest.width (request : ActRequest) : Nat := max 4 request.parameter.length

/-- The fields as an encoder copies them. -/
def ActReuseKey.padded (key : ActReuseKey) : ActReuseKey :=
  { key with
    interface := nulPadded key.interface
    method := nulPadded key.method
    pts := nulPadded key.pts }

def ActRequest.padded (request : ActRequest) : ActRequest :=
  { request with parameter := nulPadded request.parameter }

section
variable {key : ActReuseKey} {request : ActRequest} {resp : ActResponse}

theorem ActRequest.Wf.encode_length (hr : request.Wf) :
    ((paActRequestEncode request).length : Int) = 4 + 4 + request.pLen := by
  have := hr.pLen
  simp only [paActRequestEncode, List.length_append, writeInt_length, strncpy_length]
  omega

theorem ActResponse.Wf.encode_length (hr : resp.Wf) :
    ((encodeActResponse resp).length : Int) = actResponseDataLength resp := by
  have := hr.dataLen
  simp only [encodeActResponse, actResponseDataLength, List.length_append, writeInt_length,
    strncpy_length]
  omega

theorem paActRequestEncode_pos (request : ActRequest) :
    0 < (paActRequestEncode request).length := by
  simp only [paActRequestEncode, List.length_append, writeInt_length]
  omega

theorem encodeActResponse_pos (resp : ActResponse) : 0 < (encodeActResponse resp).length := by
  simp only [encodeActResponse, List.length_append, writeInt_length]
  omega

theorem ActRequest.raw_pos (request : ActRequest) : 0 < request.raw.length := by
  simp only [ActRequest.raw, List.length_append, writeInt_length]
  omega

theorem ActReuseKey.Wf.padded (hk : key.Wf) : key.padded.Sized := by
  have hi := hk.interfaceLen
  have hm := hk.methodLen
  have hp := hk.ptsLen
  have := hk.totalLen
  refine ⟨by simpa [ActReuseKey.padded], by simpa [ActReuseKey.padded],
    by simpa [ActReuseKey.padded], ?_, ?_, ?_⟩
  all_goals
    simp only [ActReuseKey.padded, nulPadded_length]
    omega

theorem ActRequest.Wf.padded (hr : request.Wf) : request.padded.Sized := by
  have hlen := hr.pLen
  have := hr.totalLen
  refine ⟨hr.id, by simpa [ActRequest.padded], ?_⟩
  simp only [ActRequest.padded, nulPadded_length]
  omega

theorem ActReuseKey.Wf.encode_eq (hk : key.Wf) : paEncodeActKey key = key.padded.raw := by
  simp only [paEncodeActKey, ActReuseKey.raw, ActReuseKey.padded, hk.interfaceLen, hk.methodLen,
    hk.ptsLen, Int.toNat_natCast]
  rfl

theorem ActRequest.Wf.encode_eq (hr : request.Wf) :
    paActRequestEncode request = request.padded.raw := by
  simp only [paActRequestEncode, ActRequest.raw, ActRequest.padded, hr.pLen, Int.toNat_natCast]
  rfl

end

end PyAgent
