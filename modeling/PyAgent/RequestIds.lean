import PyAgent.DubboClient

/-!
# Request ids on the Dubbo hop

An act id is an `int`; pa.cc widens it to `long long`, the Dubbo client writes it with
`write_ll` and reads the echo with `bytes2ll`, which adds the low half as a signed
number. What comes back is the id as long as that half is not negative.
-/

namespace PyAgent
set_option autoImplicit false

def IsInt64 (x : Int) : Prop := -9223372036854775808 ≤ x ∧ x < 9223372036854775808

theorem bytes2int_writeLL {v : Int} (hv : IsInt64 v) : bytes2int (writeLL v) = v / 4294967296 := by
  unfold IsInt64 at hv
  simp only [bytes2int, writeLL, byteAt_zero, byteAt_succ, shiftByte_toNat, toInt32]
  omega

theorem bytes2int_writeLL_low (v : Int) : bytes2int ((writeLL v).drop 4) = toInt32 v := by
  simp only [bytes2int, writeLL, List.drop_succ_cons, List.drop_zero, byteAt_zero, byteAt_succ,
    shiftByte_toNat, toInt32]
  omega

/-- With the top bit of the low half set, `1` is borrowed from the high half. -/
theorem bytes2ll_writeLL_eq {v : Int} (hv : IsInt64 v) : bytes2ll (writeLL v) =
    if v % 4294967296 < 2147483648 then v else toInt64 (v - 4294967296) := by
  simp only [bytes2ll, bytes2int_writeLL hv, bytes2int_writeLL_low]
  unfold IsInt64 at hv
  split
  · unfold toInt64 toInt32
    omega
  · congr 1
    unfold toInt32
    omega

theorem bytes2ll_writeLL_iff {v : Int} (hv : IsInt64 v) :
    bytes2ll (writeLL v) = v ↔ v % 4294967296 < 2147483648 := by
  rw [bytes2ll_writeLL_eq hv]
  split
  · rename_i hlow
    exact iff_of_true rfl hlow
  · rename_i hhigh
    apply iff_of_false _ hhigh
    unfold IsInt64 at hv
    unfold toInt64
    omega

theorem shiftByte_eq {v p : Int} {b : UInt8} (h : v / p % 256 = b.toNat) : shiftByte v p = b := by
  apply UInt8.toNat_inj.mp
  have := shiftByte_toNat v p
  omega

theorem bytes2int_four (a b c d : UInt8) : bytes2int [a, b, c, d] = toInt32
    (a.toNat * 16777216 + b.toNat * 65536 + c.toNat * 256 + d.toNat : Int) := rfl

theorem writeInt_bytes2int {buf : Bytes} (hbuf : buf.length = 4) :
    writeInt (bytes2int buf) = buf := by
  match buf, hbuf with
  | [a, b, c, d], _ =>
    have ha := a.toNat_lt
    have hb := b.toNat_lt
    have hc := c.toNat_lt
    have hd := d.toNat_lt
    let v : Int := a.toNat * 16777216 + b.toNat * 65536 + c.toNat * 256 + d.toNat
    have hv : v = a.toNat * 16777216 + b.toNat * 65536 + c.toNat * 256 + d.toNat := rfl
    have h₁ : shiftByte (toInt32 v) 16777216 = a := shiftByte_eq (by unfold toInt32; omega)
    have h₂ : shiftByte (toInt32 v) 65536 = b := shiftByte_eq (by unfold toInt32; omega)
    have h₃ : shiftByte (toInt32 v) 256 = c := shiftByte_eq (by unfold toInt32; omega)
    have h₄ : shiftByte (toInt32 v) 1 = d := shiftByte_eq (by unfold toInt32; omega)
    rw [bytes2int_four, writeInt, ← hv, h₁, h₂, h₃, h₄]

theorem bytes2int_nonneg_iff {buf : Bytes} (hbuf : buf.length = 4) :
    0 ≤ bytes2int buf ↔ byteAt buf 0 < 128 := by
  match buf, hbuf with
  | [a, b, c, d], _ =>
    have ha := a.toNat_lt
    have hb := b.toNat_lt
    have hc := c.toNat_lt
    have hd := d.toNat_lt
    rw [bytes2int_four, byteAt_zero]
    unfold toInt32
    omega

/-! ## From the act request to the act response -/

/-- Where a Dubbo request carries its id, and a response the echo of it. -/
theorem dubboRequestEncode_id (request : DubboRequest) :
    ((dubboRequestEncode request).drop 4).take 8 = writeLL request.id := by
  simp only [dubboRequestEncode, List.append_assoc]
  rfl

/-- The narrowed id has the four bytes of the act request, whatever `bytes2ll` makes of the echo. -/
theorem toInt32_bytes2ll_writeLL {v : Int} (hv : IsInt32 v) :
    toInt32 (bytes2ll (writeLL v)) = v := by
  unfold IsInt32 at hv
  have hwide : IsInt64 v := ⟨by omega, by omega⟩
  rw [bytes2ll_writeLL_eq hwide]
  split
  · exact toInt32_of_isInt32 hv
  · unfold toInt64 toInt32
    omega

/-- `bytes2ll` undoes `write_ll` exactly on values whose low half has a clear top bit. So the key
of a callback is the one `_d_read_cb` computes exactly for act ids that are not negative, while the
act response carries the id bytes of the request in any case. -/
theorem request_ids_iff {v : Int} (hv : IsInt64 v) {received : Bytes} (hlen : received.length = 4)
    {act : ActRequest} (hid : act.id = bytes2int received) {χ : Type} (client : DubboClient χ)
    (context : χ) (c : DubboReader) :
    (bytes2ll (writeLL v) = v ↔ v % 4294967296 < 2147483648) ∧
    let request := dubboRequestFromAct act
    let fetched := client.dubboFetch request .dubboCallback context
    let c' := dubboId.store c (((dubboRequestEncode request).drop 4).take 8)
    fetched.cbs request.id = some .dubboCallback ∧
    fetched.contexts request.id = some context ∧
    (c'.dubboResp.id = request.id ↔ byteAt received 0 < 128) ∧
    (encodeActResponse (actResponseFromDubbo c'.dubboResp)).take 4 = received := by
  refine ⟨bytes2ll_writeLL_iff hv, ?_⟩
  intro request fetched c'
  have hint : IsInt32 (bytes2int received) := isInt32_bytes2int received
  have hrequest : request.id = bytes2int received := hid
  have hkey : c'.dubboResp.id = bytes2ll (writeLL (bytes2int received)) := by
    have hecho := dubboRequestEncode_id request
    rw [hrequest] at hecho
    simp only [c', hecho]
    rfl
  refine ⟨?_, ?_, ?_, ?_⟩
  · simp [fetched, DubboClient.dubboFetch]
  · simp [fetched, DubboClient.dubboFetch]
  · have hwide : IsInt64 (bytes2int received) := by
      unfold IsInt32 at hint
      exact ⟨by omega, by omega⟩
    rw [hkey, hrequest, bytes2ll_writeLL_iff hwide, ← bytes2int_nonneg_iff hlen]
    unfold IsInt32 at hint
    omega
  · have hbytes : (encodeActResponse (actResponseFromDubbo c'.dubboResp)).take 4 =
        writeInt (toInt32 c'.dubboResp.id) := by
      simp only [encodeActResponse, actResponseFromDubbo, List.append_assoc]
      rfl
    rw [hbytes, hkey, toInt32_bytes2ll_writeLL hint, writeInt_bytes2int hlen]

/-- A `long long` with both halves in use, and the act id 7. -/
theorem request_ids_seven :
    bytes2ll (writeLL 4294967303) = 4294967303 ∧
    let act : ActRequest := { id := bytes2int [0, 0, 0, 7], pLen := 0, parameter := [] }
    (dubboId.store ⟨.id, ⟨0, 0, []⟩⟩
      (((dubboRequestEncode (dubboRequestFromAct act)).drop 4).take 8)).dubboResp.id =
        (dubboRequestFromAct act).id := by
  let act : ActRequest := { id := bytes2int [0, 0, 0, 7], pLen := 0, parameter := [] }
  have hwide : IsInt64 4294967303 := ⟨by omega, by omega⟩
  have hlen : ([0, 0, 0, 7] : Bytes).length = 4 := rfl
  have hid : act.id = bytes2int [0, 0, 0, 7] := rfl
  obtain ⟨hroundtrip, _, _, hkey, _⟩ := request_ids_iff hwide hlen hid
    (DubboClient.create : DubboClient Nat) 0 ⟨.id, ⟨0, 0, []⟩⟩
  exact ⟨hroundtrip.mpr (by decide), hkey.mpr (by decide)⟩

/-- The value `2 ^ 31`, and the act id `-1`: its callback is filed under `-1` and looked up under
`-2 ^ 32 - 1`. -/
theorem request_ids_negative :
    (IsInt64 2147483648 ∧ bytes2ll (writeLL 2147483648) ≠ 2147483648) ∧
    let act : ActRequest := { id := bytes2int [255, 255, 255, 255], pLen := 0, parameter := [] }
    (dubboRequestFromAct act).id = -1 ∧
      bytes2ll (((dubboRequestEncode (dubboRequestFromAct act)).drop 4).take 8) = -4294967297 := by
  refine ⟨⟨⟨by omega, by omega⟩, by decide +kernel⟩, by decide +kernel, ?_⟩
  rw [dubboRequestEncode_id]
  decide +kernel

end PyAgent
