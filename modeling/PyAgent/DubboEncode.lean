import PyAgent.DubboClient
import PyAgent.Python
import PyAgent.Streaming.Delimited

/-!
# The two Dubbo encoders

`dubbo_request_encode` sums up the length first and then stores byte after byte
through one cursor; `Request.encode` of dubbo.py joins its pieces and measures them.
`Writer` keeps every store of the former with its place in the buffer.
-/

namespace PyAgent
set_option autoImplicit false

open Streaming

/-- `pos`, and the stores made so far. -/
structure Writer where
  pos : Int
  stores : List (Int × UInt8)

namespace Writer

/-- `buffer[pos++] = c` -/
def put (c : UInt8) (w : Writer) : Writer := ⟨w.pos + 1, w.stores ++ [(w.pos, c)]⟩

/-- Stores at `base` and behind it that leave `pos` alone. -/
def storeAt (base : Int) (cs : Bytes) (w : Writer) : Writer :=
  { w with stores := w.stores ++ cs.mapIdx fun i c => (base + i, c) }

/-- `pos += n` -/
def skip (n : Int) (w : Writer) : Writer := { w with pos := w.pos + n }

/-- `for(; i<len; i++) buffer[pos++] = src[i]` with `k` passes to go; `none` is a load behind the
end of `src`. -/
def copyFrom (src : Bytes) : Nat → Nat → Writer → Option Writer
  | 0, _, w => some w
  | k + 1, i, w =>
    match src[i]? with
    | none => none
    | some c => copyFrom src k (i + 1) (w.put c)

/-- A quote, a field, a quote and a line feed. -/
def line (src : Bytes) (len : Int) (w : Writer) : Option Writer :=
  (copyFrom src len.toNat 0 (w.put 0x22)).map fun w => (w.put 0x22).put 0x0a

end Writer

/-- What `dubbo_request_encode` asks `x_malloc` for. -/
def dubboTotalLen (request : DubboRequest) : Int :=
  4 + 8 + 4 + (request.dubboVersionLen + 1) + (request.interfaceLen + 1) + 5 +
    (request.ptsLen + 1) + (request.argsLen + 1) + 69 + 10 + (request.methodLen + 1)

def dubboAttachment : Bytes :=
  ascii "\x7b\"path\":\"com.alibaba.dubbo.performance.demo.provider.IHelloService\"\x7d\n"

theorem dubboAttachment_eq : dubboAttachment =
    ascii "\x7b\"path\":\"com.alibaba.dubbo.performance.demo.provider.IHelloService\"\x7d" ++
      ascii "\n" := by
  decide +kernel

theorem dubboAttachment_length : dubboAttachment.length = 69 := by
  decide +kernel

/-- The stores of `dubbo_request_encode`. -/
def dubboRequestStores (request : DubboRequest) : Option Writer := do
  let w := ((⟨0, []⟩ : Writer).storeAt 0 [0xda, 0xbb, 0xc6, 0x00]).skip 4
  let w := (w.storeAt w.pos (writeLL request.id)).skip 8
  let w := (w.storeAt w.pos (writeInt (dubboTotalLen request - 16))).skip 4
  let w ← w.line request.dubboVersion request.dubboVersionLen
  let w ← w.line request.interfaceName request.interfaceLen
  let w := ((((w.put 0x6e).put 0x75).put 0x6c).put 0x6c).put 0x0a
  let w ← w.line request.methodName request.methodLen
  let w ← w.line request.parameterTypesString request.ptsLen
  let w ← w.line request.args request.argsLen
  some (w.storeAt w.pos (strncpy dubboAttachment 69))

/-- What follows the header of 16 bytes. -/
def dubboBody (request : DubboRequest) : Bytes :=
  quotedLine request.dubboVersion request.dubboVersionLen ++
    quotedLine request.interfaceName request.interfaceLen ++ ascii "null\n" ++
    quotedLine request.methodName request.methodLen ++
    quotedLine request.parameterTypesString request.ptsLen ++
    quotedLine request.args request.argsLen ++ dubboAttachment

theorem dubboRequestEncode_eq (request : DubboRequest) : dubboRequestEncode request =
    [0xda, 0xbb, 0xc6, 0x00] ++ writeLL request.id ++ writeInt (dubboTotalLen request - 16) ++
      dubboBody request := by
  simp only [dubboRequestEncode, dubboBody, ← dubboTotalLen.eq_1, ← dubboAttachment.eq_1,
    List.append_assoc]

theorem dubboRequestEncode_length (request : DubboRequest) :
    (dubboRequestEncode request).length = 16 + (dubboBody request).length := by
  simp only [dubboRequestEncode_eq, List.length_append, List.length_cons, List.length_nil,
    writeLL_length, writeInt_length]

/-- The lengths are those of the byte strings. -/
structure DubboRequest.Sized (request : DubboRequest) : Prop where
  version : request.dubboVersionLen = request.dubboVersion.length
  interface : request.interfaceLen = request.interfaceName.length
  method : request.methodLen = request.methodName.length
  pts : request.ptsLen = request.parameterTypesString.length
  args : request.argsLen = request.args.length

/-! ## One cursor -/

namespace Writer
variable {w : Writer} {bs : Bytes}

/-- `bs` has been stored, each byte once and at its place. -/
def Holds (w : Writer) (bs : Bytes) : Prop := w.stores = bs.mapIdx fun i c => ((i : Int), c)

structure Filled (w : Writer) (bs : Bytes) : Prop where
  pos : w.pos = bs.length
  holds : w.Holds bs

theorem Filled.put (hw : w.Filled bs) (c : UInt8) : (w.put c).Filled (bs ++ [c]) := by
  constructor
  · simp [Writer.put, hw.pos]
  · have hstores := hw.holds
    simp only [Holds] at hstores
    simp [Holds, Writer.put, hstores, List.mapIdx_append, hw.pos]

theorem Filled.storeAt (hw : w.Filled bs) (cs : Bytes) : (w.storeAt w.pos cs).Holds (bs ++ cs) := by
  have hstores := hw.holds
  simp only [Holds] at hstores
  simp [Holds, Writer.storeAt, hstores, List.mapIdx_append, hw.pos, Int.add_comm]

theorem Filled.append (hw : w.Filled bs) (cs : Bytes) {n : Int} (hn : n = cs.length) :
    ((w.storeAt w.pos cs).skip n).Filled (bs ++ cs) := by
  refine ⟨?_, hw.storeAt cs⟩
  simp [Writer.skip, Writer.storeAt, hw.pos, hn]

theorem Filled.copyFrom (hw : w.Filled bs) (pre src : Bytes) :
    ∃ w', copyFrom (pre ++ src) src.length pre.length w = some w' ∧ w'.Filled (bs ++ src) := by
  induction src generalizing pre w bs with
  | nil => exact ⟨w, rfl, by simpa using hw⟩
  | cons c src ih =>
    obtain ⟨w', hcopy, hfilled⟩ := ih (hw.put c) (pre ++ [c])
    refine ⟨w', ?_, by simpa using hfilled⟩
    have hc : (pre ++ c :: src)[pre.length]? = some c := by simp
    rw [List.length_cons, Writer.copyFrom, hc]
    simpa using hcopy

theorem Filled.line (hw : w.Filled bs) {src : Bytes} {len : Int} (hlen : len = src.length) :
    ∃ w', w.line src len = some w' ∧ w'.Filled (bs ++ quotedLine src len) := by
  obtain ⟨w', hcopy, hfilled⟩ := (hw.put 0x22).copyFrom [] src
  refine ⟨(w'.put 0x22).put 0x0a, ?_, ?_⟩
  · rw [Writer.line, hlen, Int.toNat_natCast]
    exact congrArg (Option.map _) hcopy
  · have h := (hfilled.put 0x22).put 0x0a
    rw [quotedLine, hlen, Int.toNat_natCast, List.take_length]
    simpa [ascii] using h

end Writer

theorem quotedLine_eq {field : Bytes} {len : Int} (hlen : len = field.length) :
    quotedLine field len = Python.quoted field := by
  rw [quotedLine, hlen, Int.toNat_natCast, List.take_length]
  rfl

namespace DubboRequest.Sized
variable {request : DubboRequest} (hr : request.Sized)
include hr

/-- The stores are those of the concatenation, one behind the other from the start of the buffer. -/
theorem stores : ∃ w, dubboRequestStores request = some w ∧
    w.Holds (dubboRequestEncode request) := by
  have hstart : (⟨0, []⟩ : Writer).Filled [] := ⟨rfl, rfl⟩
  have hmagic : (((⟨0, []⟩ : Writer).storeAt 0 [0xda, 0xbb, 0xc6, 0x00]).skip 4).Filled
      [0xda, 0xbb, 0xc6, 0x00] := hstart.append [0xda, 0xbb, 0xc6, 0x00] rfl
  have hid := hmagic.append (writeLL request.id) (n := 8) rfl
  have hlen := hid.append (writeInt (dubboTotalLen request - 16)) (n := 4) rfl
  obtain ⟨w₁, h₁, hversion⟩ := hlen.line hr.version
  obtain ⟨w₂, h₂, hinterface⟩ := hversion.line hr.interface
  have hnull := ((((hinterface.put 0x6e).put 0x75).put 0x6c).put 0x6c).put 0x0a
  obtain ⟨w₃, h₃, hmethod⟩ := hnull.line hr.method
  obtain ⟨w₄, h₄, hpts⟩ := hmethod.line hr.pts
  obtain ⟨w₅, h₅, hargs⟩ := hpts.line hr.args
  refine ⟨w₅.storeAt w₅.pos (strncpy dubboAttachment 69), ?_, ?_⟩
  · simp only [dubboRequestStores, Option.bind_eq_bind]
    rw [h₁, Option.bind_some, h₂, Option.bind_some, h₃, Option.bind_some, h₄, Option.bind_some, h₅,
      Option.bind_some]
  · have hattachment : strncpy dubboAttachment 69 = dubboAttachment := by decide +kernel
    have htext : ascii "null\n" = [0x6e, 0x75, 0x6c, 0x6c, 0x0a] := rfl
    have h := hargs.storeAt (strncpy dubboAttachment 69)
    rw [hattachment] at h ⊢
    simp only [List.append_assoc, List.cons_append, List.nil_append] at h
    simp only [dubboRequestEncode, ← dubboTotalLen.eq_1, ← dubboAttachment.eq_1, htext,
      List.append_assoc, List.cons_append, List.nil_append]
    exact h

theorem body_eq : dubboBody request =
    Python.quoted request.dubboVersion ++ Python.quoted request.interfaceName ++ ascii "null\n" ++
      Python.quoted request.methodName ++ Python.quoted request.parameterTypesString ++
      Python.quoted request.args ++ dubboAttachment := by
  simp only [dubboBody, quotedLine_eq hr.version, quotedLine_eq hr.interface,
    quotedLine_eq hr.method, quotedLine_eq hr.pts, quotedLine_eq hr.args]

theorem body_length : ((dubboBody request).length : Int) = dubboTotalLen request - 16 := by
  have hlines : ∀ field : Bytes, (Python.quoted field).length = field.length + 3 := by
    intro field
    simp only [Python.quoted, List.length_append]
    rw [Nat.add_comm (ascii "\"").length]
    rfl
  have hnull : (ascii "null\n").length = 5 := rfl
  have := hr.version
  have := hr.interface
  have := hr.method
  have := hr.pts
  have := hr.args
  simp only [hr.body_eq, List.length_append, hlines, hnull, dubboAttachment_length, dubboTotalLen]
  omega

theorem encode_length : ((dubboRequestEncode request).length : Int) = dubboTotalLen request := by
  have hlen := hr.body_length
  rw [dubboRequestEncode_length]
  omega

/-- The bytes behind the id begin with the length of what follows them. -/
theorem length_field (htotal : dubboTotalLen request < 2147483648) :
    bytes2int ((dubboRequestEncode request).drop 12) =
      (((dubboRequestEncode request).drop 16).length : Int) := by
  have hlen := hr.body_length
  have hheader : (dubboRequestEncode request).drop 12 =
      writeInt (dubboTotalLen request - 16) ++ dubboBody request := by
    rw [dubboRequestEncode_eq, List.append_assoc]
    rfl
  rw [hheader, bytes2int_writeInt_append ⟨by omega, by omega⟩, List.length_drop,
    dubboRequestEncode_length]
  omega

end DubboRequest.Sized

/-- The same request in the Python agent. -/
def DubboRequest.python (request : DubboRequest) : Python.Request where
  id := request.id
  interfaceName := request.interfaceName
  methodName := request.methodName
  dubboVersion := request.dubboVersion
  parameterTypesString := request.parameterTypesString
  args := some request.args

theorem DubboRequest.Sized.encode_frame {request : DubboRequest} (hr : request.Sized) :
    dubboRequestEncode request = request.python.frame := by
  have hbody : dubboBody request = request.python.body := by
    rw [hr.body_eq, dubboAttachment_eq]
    rfl
  have hlen := hr.body_length
  rw [dubboRequestEncode_eq, Python.Request.frame, ← hbody, hlen]
  rfl

theorem DubboRequest.Sized.python_encode {request : DubboRequest} (hr : request.Sized)
    (h0 : 0 ≤ request.id) (h1 : request.id < 9223372036854775808)
    (htotal : dubboTotalLen request < 2147483648) :
    request.python.encode = some (dubboRequestEncode request) := by
  have hlen := hr.encode_length
  rw [hr.encode_frame] at hlen ⊢
  have hid : 0 ≤ request.python.id ∧ request.python.id < 18446744073709551616 :=
    ⟨h0, Int.lt_trans h1 (by decide)⟩
  have hbody : request.python.body.length < 4294967296 := by
    simp only [Python.Request.frame, List.length_append] at hlen
    omega
  rw [Python.Request.encode_eq, if_pos ⟨hid, hbody⟩]

theorem Writer.Holds.places {w : Writer} {bs : Bytes} (hw : w.Holds bs) :
    w.stores.map Prod.fst = (List.range bs.length).map Int.ofNat ∧ w.stores.map Prod.snd = bs := by
  have hstores := hw
  simp only [Writer.Holds] at hstores
  constructor
  · apply List.ext_getElem <;> simp [hstores]
  · apply List.ext_getElem <;> simp [hstores]

/-- Every place of the buffer is stored to exactly once, in order and none outside it, and what is
in it then is what the Python agent sends. -/
theorem dubbo_encoders_agree {request : DubboRequest} (hr : request.Sized) (h0 : 0 ≤ request.id)
    (h1 : request.id < 9223372036854775808) (htotal : dubboTotalLen request < 2147483648) :
    ∃ w, dubboRequestStores request = some w ∧
      w.stores.map Prod.fst = (List.range (dubboTotalLen request).toNat).map Int.ofNat ∧
      bytes2int ((w.stores.map Prod.snd).drop 12) = ((w.stores.map Prod.snd).drop 16).length ∧
      request.python.encode = some (w.stores.map Prod.snd) := by
  obtain ⟨w, hw, hholds⟩ := hr.stores
  obtain ⟨hplaces, hbytes⟩ := hholds.places
  have hlen := hr.encode_length
  refine ⟨w, hw, ?_, ?_, ?_⟩
  · rw [hplaces, ← hlen, Int.toNat_natCast]
  · rw [hbytes]
    exact hr.length_field htotal
  · rw [hbytes]
    exact hr.python_encode h0 h1 htotal

def sampleRequest : DubboRequest :=
  dubboRequestFromAct
    { interface := ascii "I", interfaceLen := 1, method := ascii "hash", methodLen := 4,
      parameterTypesString := ascii "S", ptsLen := 1, id := 7, pLen := 2, parameter := [0, 0x22] }

theorem dubbo_encoders_agree_sample : ∃ w, dubboRequestStores sampleRequest = some w ∧
    w.stores.map Prod.fst = (List.range 118).map Int.ofNat ∧
    sampleRequest.python.encode = some (w.stores.map Prod.snd) := by
  have hr : sampleRequest.Sized := ⟨rfl, rfl, rfl, rfl, rfl⟩
  obtain ⟨w, hw, hplaces, _, hpython⟩ :=
    dubbo_encoders_agree hr (by decide) (by decide) (by decide)
  exact ⟨w, hw, hplaces, hpython⟩

/-! ## What a frame says -/

/-- No field contains the end of its own line; the args are the last field and may contain
anything. -/
structure DubboRequest.Clean (request : DubboRequest) : Prop where
  interface : ¬ ascii "\"\nnull\n" <:+: request.interfaceName
  method : ¬ ascii "\"\n" <:+: request.methodName
  pts : ¬ ascii "\"\n" <:+: request.parameterTypesString

theorem DubboRequest.Sized.body_lines {request : DubboRequest} (hr : request.Sized) :
    dubboBody request = Python.quoted request.dubboVersion ++ ascii "\"" ++
      (request.interfaceName ++ ascii "\"\nnull\n" ++ (ascii "\"" ++
        (request.methodName ++ ascii "\"\n" ++ (ascii "\"" ++
          (request.parameterTypesString ++ ascii "\"\n" ++ (ascii "\"" ++
            (request.args ++ (ascii "\"\n" ++ dubboAttachment)))))))) := by
  have hnull : ascii "\"\nnull\n" = ascii "\"\n" ++ ascii "null\n" := rfl
  simp only [hr.body_eq, Python.quoted, hnull, List.append_assoc]

theorem encode_injective {r r' : DubboRequest} (hr : r.Sized) (hr' : r'.Sized)
    (hversion : r.dubboVersion = r'.dubboVersion) (hc : r.Clean) (hc' : r'.Clean)
    (h : dubboRequestEncode r = dubboRequestEncode r') :
    r.interfaceName = r'.interfaceName ∧ r.methodName = r'.methodName ∧
      r.parameterTypesString = r'.parameterTypesString ∧ r.args = r'.args := by
  rw [dubboRequestEncode_eq, dubboRequestEncode_eq] at h
  obtain ⟨_, hbody⟩ := List.append_inj h (by simp)
  rw [hr.body_lines, hr'.body_lines, hversion] at hbody
  have hrest := List.append_cancel_left hbody
  obtain ⟨hinterface, hrest⟩ := append_delimiter_inj (by decide) hc.interface hc'.interface hrest
  obtain ⟨hmethod, hrest⟩ := append_delimiter_inj (by decide) hc.method hc'.method
    (List.append_cancel_left hrest)
  obtain ⟨hpts, hrest⟩ := append_delimiter_inj (by decide) hc.pts hc'.pts
    (List.append_cancel_left hrest)
  exact ⟨hinterface, hmethod, hpts, List.append_cancel_right (List.append_cancel_left hrest)⟩

def inQuotes (s : Bytes) : Bytes := ascii "\"" ++ s ++ ascii "\""

def dubboLines (request : DubboRequest) : List Bytes :=
  [inQuotes request.dubboVersion, inQuotes request.interfaceName, ascii "null",
    inQuotes request.methodName, inQuotes request.parameterTypesString, inQuotes request.args,
    ascii "\x7b\"path\":\"com.alibaba.dubbo.performance.demo.provider.IHelloService\"\x7d", []]

def DubboRequest.OneLiners (request : DubboRequest) : Prop :=
  ∀ field ∈ [request.dubboVersion, request.interfaceName, request.methodName,
    request.parameterTypesString, request.args], 0x0a ∉ field

theorem encode_lines {r : DubboRequest} (hr : r.Sized) (hone : r.OneLiners) :
    ((dubboRequestEncode r).drop 16).splitOn 0x0a = dubboLines r := by
  have hheader : (dubboRequestEncode r).drop 16 = dubboBody r := by
    rw [dubboRequestEncode_eq]
    rfl
  have hquoted : ∀ s, Python.quoted s = inQuotes s ++ [0x0a] := by
    intro s
    rw [Python.quoted, inQuotes, List.append_assoc (ascii "\"" ++ s)]
    rfl
  have hfeed : ascii "\n" = [0x0a] := rfl
  have hnull : ascii "null\n" = ascii "null" ++ [0x0a] := rfl
  have hjoin : dubboBody r = [0x0a].intercalate (dubboLines r) := by
    rw [hr.body_eq, dubboAttachment_eq, hnull, hfeed]
    simp only [hquoted, dubboLines, List.intercalate, List.intersperse, List.flatten_cons,
      List.flatten_nil, List.append_assoc, List.append_nil]
  have hfield : ∀ field, 0x0a ∉ field → 0x0a ∉ inQuotes field := by
    intro field hfield
    simpa [inQuotes, ascii] using hfield
  rw [hheader, hjoin]
  apply List.splitOn_intercalate
  · simp only [DubboRequest.OneLiners, List.forall_mem_cons] at hone
    obtain ⟨hversion, hinterface, hmethod, hpts, hargs, _⟩ := hone
    simp only [dubboLines, List.forall_mem_cons]
    exact ⟨hfield _ hversion, hfield _ hinterface, by decide, hfield _ hmethod, hfield _ hpts,
      hfield _ hargs, by decide +kernel, by decide, by simp⟩
  · exact List.cons_ne_nil _ _

/-- Fields that do not contain the end of their line are told apart, and fields without line feeds
are read as the lines they were written as. -/
theorem dubbo_frame_unambiguous :
    (∀ r r' : DubboRequest, r.Sized → r'.Sized → r.id = r'.id → r.dubboVersion = r'.dubboVersion →
      r.Clean → r'.Clean → dubboRequestEncode r = dubboRequestEncode r' →
      r.interfaceName = r'.interfaceName ∧ r.methodName = r'.methodName ∧
        r.parameterTypesString = r'.parameterTypesString ∧ r.args = r'.args) ∧
    ∀ r : DubboRequest, r.Sized → r.OneLiners →
      ((dubboRequestEncode r).drop 16).splitOn 0x0a = dubboLines r :=
  ⟨fun _ _ hr hr' _ hversion hc hc' h => encode_injective hr hr' hversion hc hc' h,
    fun _ hr hone => encode_lines hr hone⟩

def forgedRequest (method pts : Bytes) : DubboRequest :=
  dubboRequestFromAct
    { interface := ascii "I", interfaceLen := 1, method := method, methodLen := method.length,
      parameterTypesString := pts, ptsLen := pts.length, id := 7, pLen := 1,
      parameter := ascii "d" }

theorem dubbo_frame_unambiguous_two_methods :
    dubboRequestEncode (forgedRequest (ascii "a") (ascii "c")) ≠
        dubboRequestEncode (forgedRequest (ascii "b") (ascii "c")) ∧
      ((dubboRequestEncode (forgedRequest (ascii "a") (ascii "c"))).drop 16).splitOn 0x0a =
        dubboLines (forgedRequest (ascii "a") (ascii "c")) := by
  let r := forgedRequest (ascii "a") (ascii "c")
  let r' := forgedRequest (ascii "b") (ascii "c")
  have hr : r.Sized := ⟨rfl, rfl, rfl, rfl, rfl⟩
  have hr' : r'.Sized := ⟨rfl, rfl, rfl, rfl, rfl⟩
  have hclean : r.Clean := ⟨by decide, by decide, by decide⟩
  have hclean' : r'.Clean := ⟨by decide, by decide, by decide⟩
  have hone : r.OneLiners := by
    unfold DubboRequest.OneLiners
    decide
  constructor
  · intro h
    have hmethod := (dubbo_frame_unambiguous.1 r r' hr hr' rfl rfl hclean hclean' h).2.1
    exact absurd hmethod (by decide)
  · exact dubbo_frame_unambiguous.2 r hr hone

/-- A method that contains the end of its line and the beginning of the next one. -/
theorem dubbo_frame_forged :
    dubboRequestEncode (forgedRequest (ascii "a\"\n\"b") (ascii "c")) =
        dubboRequestEncode (forgedRequest (ascii "a") (ascii "b\"\n\"c")) ∧
      (forgedRequest (ascii "a\"\n\"b") (ascii "c")).methodName ≠
        (forgedRequest (ascii "a") (ascii "b\"\n\"c")).methodName := by
  decide +kernel

end PyAgent
