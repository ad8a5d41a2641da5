import Mathlib.Data.List.Basic
import Mathlib.Data.List.TakeDrop
import Mathlib.Data.List.TakeWhile

/-!
# C integers and byte strings

Integers are `Int` with the conversions of the 64-bit platform written out. The
byte order helpers are those of utils.cc; `strncpy` is the one of the C library.
-/

namespace PyAgent
set_option autoImplicit false

abbrev Bytes := List UInt8

def ascii (s : String) : Bytes := s.toList.map fun c => UInt8.ofNat c.toNat

def toInt32 (x : Int) : Int := (x + 2147483648) % 4294967296 - 2147483648

def toInt64 (x : Int) : Int :=
  (x + 9223372036854775808) % 18446744073709551616 - 9223372036854775808

def toUInt32 (x : Int) : Nat := (x % 4294967296).toNat

def toSizeT (x : Int) : Nat := (x % 18446744073709551616).toNat

def IsInt32 (x : Int) : Prop := -2147483648 ≤ x ∧ x < 2147483648

instance (x : Int) : Decidable (IsInt32 x) := inferInstanceAs (Decidable (_ ∧ _))

theorem toInt32_of_isInt32 {x : Int} (h : IsInt32 x) : toInt32 x = x := by
  unfold IsInt32 at h
  unfold toInt32
  omega

/-! ## utils.cc -/

def byteAt (buf : Bytes) (i : Nat) : Int := (buf.getD i 0).toNat

/-- The four masked bytes occupy different bits, so `|` adds them. -/
def bytes2int (buf : Bytes) : Int :=
  toInt32 (byteAt buf 0 * 16777216 + byteAt buf 1 * 65536 + byteAt buf 2 * 256 + byteAt buf 3)

def bytes2ll (buf : Bytes) : Int :=
  let hi := bytes2int buf
  let lo := bytes2int (buf.drop 4)
  toInt64 (hi * 4294967296 + lo)

/-- `(v >> k) & 0xff`, where `p` is `2 ^ k`. -/
def shiftByte (v p : Int) : UInt8 := UInt8.ofNat (v / p % 256).toNat

def writeLL (v : Int) : Bytes :=
  [shiftByte v 72057594037927936, shiftByte v 281474976710656, shiftByte v 1099511627776,
    shiftByte v 4294967296, shiftByte v 16777216, shiftByte v 65536, shiftByte v 256,
    shiftByte v 1]

def writeInt (v : Int) : Bytes :=
  [shiftByte v 16777216, shiftByte v 65536, shiftByte v 256, shiftByte v 1]

@[simp] theorem writeInt_length (v : Int) : (writeInt v).length = 4 := rfl

@[simp] theorem writeLL_length (v : Int) : (writeLL v).length = 8 := rfl

theorem shiftByte_toNat (v p : Int) : ((shiftByte v p).toNat : Int) = v / p % 256 := by
  have h0 := Int.emod_nonneg (v / p) (by decide : (256 : Int) ≠ 0)
  have h1 := Int.emod_lt_of_pos (v / p) (by decide : (0 : Int) < 256)
  rw [shiftByte, UInt8.toNat_ofNat']
  omega

theorem byteAt_zero (b : UInt8) (bs : Bytes) : byteAt (b :: bs) 0 = b.toNat := rfl

theorem byteAt_succ (b : UInt8) (bs : Bytes) (i : Nat) :
    byteAt (b :: bs) (i + 1) = byteAt bs i := rfl

theorem bytes2int_writeInt_append {v : Int} (hv : IsInt32 v) (rest : Bytes) :
    bytes2int (writeInt v ++ rest) = v := by
  unfold IsInt32 at hv
  simp only [bytes2int, writeInt, List.cons_append, byteAt_zero, byteAt_succ,
    shiftByte_toNat, toInt32]
  omega

theorem writeInt_emod_inj {v v' : Int} (h : writeInt v = writeInt v') :
    v % 4294967296 = v' % 4294967296 := by
  have hbytes : ∀ v, bytes2int (writeInt v) = toInt32 v := by
    intro v
    simp only [bytes2int, writeInt, byteAt_zero, byteAt_succ, shiftByte_toNat, toInt32]
    omega
  have hint : toInt32 v = toInt32 v' := by rw [← hbytes, ← hbytes, h]
  unfold toInt32 at hint
  omega

theorem bytes2int_writeInt {v : Int} (hv : IsInt32 v) : bytes2int (writeInt v) = v := by
  simpa using bytes2int_writeInt_append hv []

theorem bytes2ll_writeLL {v : Int} (h0 : 0 ≤ v) (h1 : v < 2147483648) :
    bytes2ll (writeLL v) = v := by
  have hhi : bytes2int (writeLL v) = 0 := by
    simp only [bytes2int, writeLL, byteAt_zero, byteAt_succ, shiftByte_toNat, toInt32]
    omega
  have hlo : bytes2int ((writeLL v).drop 4) = v :=
    bytes2int_writeInt (v := v) ⟨by omega, h1⟩
  simp only [bytes2ll, hhi, hlo, toInt64]
  omega

theorem bytes2int_take (buf : Bytes) {n : Nat} (hn : 4 ≤ n) :
    bytes2int (buf.take n) = bytes2int buf := by
  have h : ∀ i, i < 4 → byteAt (buf.take n) i = byteAt buf i := by
    intro i hi
    simp only [byteAt, List.getD_eq_getElem?_getD, List.getElem?_take]
    rw [if_pos (by omega)]
  simp only [bytes2int, h 0 (by omega), h 1 (by omega), h 2 (by omega), h 3 (by omega)]

theorem bytes2ll_take (buf : Bytes) : bytes2ll (buf.take 8) = bytes2ll buf := by
  simp only [bytes2ll, List.drop_take]
  rw [bytes2int_take buf (by omega), bytes2int_take (buf.drop 4) (by omega)]

theorem isInt32_bytes2int (buf : Bytes) : IsInt32 (bytes2int buf) := by
  unfold IsInt32 bytes2int toInt32
  omega

/-! ## strncpy -/

/-- The `n` bytes `strncpy` stores: it stops reading at a NUL and fills up with NULs. -/
def strncpy : Bytes → Nat → Bytes
  | _, 0 => []
  | [], n + 1 => 0 :: strncpy [] n
  | c :: cs, n + 1 => if c = 0 then List.replicate (n + 1) 0 else c :: strncpy cs n

/-- A byte string up to its first NUL, and NULs from there on. -/
def nulPadded (bs : Bytes) : Bytes := strncpy bs bs.length

@[simp] theorem strncpy_zero (src : Bytes) : strncpy src 0 = [] := by
  cases src <;> rfl

theorem strncpy_nil (n : Nat) : strncpy [] n = List.replicate n 0 := by
  induction n with
  | zero => rfl
  | succ n ih => rw [strncpy, ih, List.replicate_succ]

@[simp] theorem strncpy_length (src : Bytes) (n : Nat) : (strncpy src n).length = n := by
  induction n generalizing src with
  | zero => simp
  | succ n ih =>
    cases src with
    | nil => simp [strncpy, ih]
    | cons c cs =>
      unfold strncpy
      split
      · simp
      · simp [ih]

@[simp] theorem nulPadded_length (bs : Bytes) : (nulPadded bs).length = bs.length :=
  strncpy_length bs _

theorem strncpy_take (src : Bytes) {n m : Nat} (hnm : n ≤ m) :
    strncpy (src.take m) n = strncpy src n := by
  induction n generalizing src m with
  | zero => simp
  | succ n ih =>
    obtain ⟨m, rfl⟩ : ∃ k, m = k + 1 := ⟨m - 1, by omega⟩
    cases src with
    | nil => simp
    | cons c cs =>
      rw [List.take_succ_cons, strncpy, strncpy, ih cs (by omega)]

theorem strncpy_replicate_zero (n : Nat) (rest : Bytes) :
    strncpy (List.replicate n 0 ++ rest) n = List.replicate n 0 := by
  cases n with
  | zero => simp
  | succ n => simp [List.replicate_succ, strncpy]

theorem strncpy_strncpy (src : Bytes) (n : Nat) : strncpy (strncpy src n) n = strncpy src n := by
  induction n generalizing src with
  | zero => simp
  | succ n ih =>
    cases src with
    | nil =>
      rw [strncpy_nil]
      simpa using strncpy_replicate_zero (n + 1) []
    | cons c cs =>
      by_cases hc : c = 0
      · have h : strncpy (c :: cs) (n + 1) = List.replicate (n + 1) 0 := by simp [strncpy, hc]
        rw [h]
        simpa using strncpy_replicate_zero (n + 1) []
      · have h : strncpy (c :: cs) (n + 1) = c :: strncpy cs n := by simp [strncpy, hc]
        rw [h, strncpy, if_neg hc, ih]

@[simp] theorem nulPadded_strncpy (src : Bytes) (n : Nat) :
    nulPadded (strncpy src n) = strncpy src n := by
  unfold nulPadded
  rw [strncpy_length, strncpy_strncpy]

theorem nulPadded_nulPadded (bs : Bytes) : nulPadded (nulPadded bs) = nulPadded bs :=
  nulPadded_strncpy bs _

theorem nulPadded_getElem?_of_no_nul {bs : Bytes} {i : Nat} (hi : i < bs.length)
    (h : ∀ j, j ≤ i → bs[j]? ≠ some 0) : (nulPadded bs)[i]? = bs[i]? := by
  unfold nulPadded
  induction bs generalizing i with
  | nil => simp at hi
  | cons c cs ih =>
    have hc : c ≠ 0 := by
      intro hc
      exact h 0 (Nat.zero_le _) (by simp [hc])
    rw [List.length_cons, strncpy, if_neg hc]
    cases i with
    | zero => rfl
    | succ i =>
      simp only [List.getElem?_cons_succ]
      exact ih (by simpa using hi) (fun j hj => by simpa using h (j + 1) (by omega))

theorem nulPadded_getElem?_of_nul {bs : Bytes} {i j : Nat} (hi : i < bs.length) (hj : j ≤ i)
    (h : bs[j]? = some 0) : (nulPadded bs)[i]? = some 0 := by
  unfold nulPadded
  induction bs generalizing i j with
  | nil => simp at hi
  | cons c cs ih =>
    rw [List.length_cons, strncpy]
    split
    · rw [List.getElem?_replicate]
      simpa using hi
    · rename_i hc
      cases j with
      | zero => exact absurd (by simpa using h) hc
      | succ j =>
        obtain ⟨i, rfl⟩ : ∃ k, i = k + 1 := ⟨i - 1, by omega⟩
        simp only [List.getElem?_cons_succ] at h ⊢
        exact ih (by simpa using hi) (by omega) h

/-- Nothing but NULs behind a NUL. -/
theorem nulPadded_eq_iff (bs : Bytes) :
    nulPadded bs = bs ↔ bs.Pairwise fun a b => a = 0 → b = 0 := by
  unfold nulPadded
  induction bs with
  | nil => simp
  | cons c cs ih =>
    rw [List.length_cons, strncpy, List.pairwise_cons]
    split
    · rename_i hc
      subst hc
      rw [List.replicate_succ]
      constructor
      · intro h
        have hcs : cs = List.replicate cs.length 0 := (List.cons.inj h).2.symm
        have hall : ∀ b ∈ cs, b = 0 := (List.eq_replicate_iff.mp hcs).2
        exact ⟨fun b hb _ => hall b hb,
          List.pairwise_of_forall_mem_list fun _ _ b hb _ => hall b hb⟩
      · intro h
        have hcs : cs = List.replicate cs.length 0 :=
          List.eq_replicate_iff.mpr ⟨rfl, fun b hb => h.1 b hb rfl⟩
        exact congrArg (List.cons 0) hcs.symm
    · rename_i hc
      rw [List.cons.injEq, ih]
      constructor
      · intro h
        exact ⟨fun b _ hzero => absurd hzero hc, h.2⟩
      · intro h
        exact ⟨rfl, h.2⟩

theorem nulPadded_of_no_nul {bs : Bytes} (h : 0 ∉ bs) : nulPadded bs = bs := by
  apply (nulPadded_eq_iff bs).mpr
  apply List.pairwise_of_forall_mem_list
  intro a ha _ _ hzero
  subst hzero
  exact absurd ha h

theorem nulPadded_cons {c : UInt8} (hc : c ≠ 0) (cs : Bytes) :
    nulPadded (c :: cs) = c :: nulPadded cs := by
  unfold nulPadded
  rw [List.length_cons, strncpy, if_neg hc]

theorem nulPadded_append {a : Bytes} (ha : 0 ∉ a) (b : Bytes) :
    nulPadded (a ++ b) = a ++ nulPadded b := by
  induction a with
  | nil => rfl
  | cons c cs ih =>
    have hc : c ≠ 0 := fun h => ha (h ▸ List.mem_cons_self)
    have hcs : 0 ∉ cs := fun h => ha (List.mem_cons_of_mem c h)
    rw [List.cons_append, nulPadded_cons hc, ih hcs, List.cons_append]

end PyAgent
