import PyAgent.Machine
import Mathlib.Data.List.Nodup
import Mathlib.Data.List.Perm.Basic

/-!
# Receive buffers and their pool

bytebuf.cc and the alloc callbacks of the agents. A `byte_buf_t` is an object of
the heap, named by a pointer; the pool holds pointers. `buf` keeps the bytes
stored in the block so far, `size` is what was allocated.
-/

namespace PyAgent
set_option autoImplicit false

structure ByteBuf where
  readIdx : Int
  writeIdx : Int
  size : Nat
  buf : Bytes
  deriving DecidableEq

namespace ByteBuf

/-- `buf->buf[i]`, `none` for a byte that was never stored. -/
def load (b : ByteBuf) (i : Int) : Option UInt8 := if 0 ≤ i then b.buf[i.toNat]? else none

def store (b : ByteBuf) (i : Int) (c : UInt8) : Option ByteBuf :=
  if 0 ≤ i ∧ i < b.size then
    some { b with buf := b.buf.takeD i.toNat 0 ++ c :: b.buf.drop (i.toNat + 1) }
  else none

/-- The kernel stores the bytes of a read at `buf->buf + base`. -/
def fill (b : ByteBuf) (base : Int) (chunk : Bytes) : ByteBuf :=
  { b with buf := b.buf.takeD base.toNat 0 ++ chunk ++ b.buf.drop (base.toNat + chunk.length) }

def addWritten (b : ByteBuf) (nread : Int) : ByteBuf :=
  { b with writeIdx := toInt32 (b.writeIdx + nread) }

def addRead (b : ByteBuf) (n : Int) : ByteBuf := { b with readIdx := b.readIdx + n }

def ptr (b : ByteBuf) : Bytes := b.buf.drop b.readIdx.toNat

@[simp] theorem fill_readIdx (b : ByteBuf) (base : Int) (chunk : Bytes) :
    (b.fill base chunk).readIdx = b.readIdx := rfl

@[simp] theorem fill_writeIdx (b : ByteBuf) (base : Int) (chunk : Bytes) :
    (b.fill base chunk).writeIdx = b.writeIdx := rfl

@[simp] theorem addWritten_readIdx (b : ByteBuf) (n : Int) :
    (b.addWritten n).readIdx = b.readIdx := rfl

@[simp] theorem addWritten_buf (b : ByteBuf) (n : Int) : (b.addWritten n).buf = b.buf := rfl

theorem addWritten_zero {b : ByteBuf} (h : IsInt32 b.writeIdx) : b.addWritten 0 = b := by
  cases b
  simp only [addWritten, Int.add_zero, toInt32_of_isInt32 h]

def unread (b : ByteBuf) : Bytes := b.ptr.take (b.writeIdx - b.readIdx).toNat

end ByteBuf

def createBuf (size : Nat) : ByteBuf := ⟨0, 0, size, []⟩

def bufFlip (b : ByteBuf) : ByteBuf := { b with writeIdx := 0, readIdx := 0 }

/-- Every `byte_buf_t` created so far, and `buf_pool_t.bufs`. A pointer is a place in `heap`. -/
structure BufStore where
  heap : List ByteBuf
  bufs : List Nat

namespace BufStore

def sizeAt (m : BufStore) (p : Nat) : Nat := (m.heap[p]?).elim 0 ByteBuf.size

def create (m : BufStore) (size : Nat) : BufStore × Nat :=
  ({ m with heap := m.heap ++ [createBuf size] }, m.heap.length)

/-- `pool->bufs.top()`: a largest buffer; which one of several is up to the queue (`tie`). -/
def top (m : BufStore) (tie : Nat) : Option Nat :=
  let tops := m.bufs.filter fun p => m.bufs.all fun q => m.sizeAt q ≤ m.sizeAt p
  tops[tie % tops.length]?

def poolMalloc (m : BufStore) (size tie : Nat) : BufStore × Nat :=
  match m.top tie with
  | none => m.create size
  | some p =>
    if m.sizeAt p < size then m.create size
    else ({ heap := m.heap.modify p bufFlip, bufs := m.bufs.erase p }, p)

def modifyAt (m : BufStore) (p : Nat) (f : ByteBuf → ByteBuf) : BufStore :=
  { m with heap := m.heap.modify p f }

def poolFree (m : BufStore) (p : Nat) : BufStore := { m with bufs := p :: m.bufs }

end BufStore

/-- `for(int i=ri; i<wi; i++) { new_buf->buf[i-ri] = buf->buf[i]; new_buf->write_idx++; }`,
with `k` passes to go. -/
def copyLoop (old : ByteBuf) : Nat → Int → ByteBuf → Option ByteBuf
  | 0, _, new => some new
  | k + 1, i, new =>
    match old.load i with
    | none => none
    | some c =>
      match new.store (i - old.readIdx) c with
      | none => none
      | some new' => copyLoop old k (i + 1) { new' with writeIdx := new'.writeIdx + 1 }

def copyUnread (old new : ByteBuf) : Option ByteBuf :=
  copyLoop old (old.writeIdx - old.readIdx).toNat old.readIdx new

/-- `int remain = size - write_idx`, as it enters the comparison with `suggested_size / 3`. -/
def intRemain (b : ByteBuf) : Nat := toSizeT (toInt32 (b.size - b.writeIdx))

def uintRemain (b : ByteBuf) : Nat := toUInt32 (b.size - b.writeIdx)

/-- What an alloc callback hands to libuv: a place in a block and a length. -/
structure UvBuf where
  block : Nat
  base : Int
  len : Nat

def offer (p : Nat) (b : ByteBuf) : UvBuf := ⟨p, b.writeIdx, toUInt32 (b.size - b.writeIdx)⟩

/-- The part of the alloc callbacks that makes room; `none` is undefined behaviour. -/
def makeRoom (remainOf : ByteBuf → Nat) (suggested tie : Nat) (m : BufStore)
    (held : Option Nat) : Option (BufStore × Nat) :=
  match held with
  | none =>
    if 0 < suggested / 3 then some (m.poolMalloc (toUInt32 suggested) tie) else none
  | some p =>
    match m.heap[p]? with
    | none => none
    | some b =>
      if remainOf b < suggested / 3 then
        let r := m.poolMalloc (toUInt32 suggested) tie
        match r.1.heap[r.2]? with
        | none => none
        | some new =>
          match copyUnread b new with
          | none => none
          | some new' => some (({ r.1 with heap := r.1.heap.set r.2 new' }).poolFree p, r.2)
      else some (m, p)

/-- The alloc callbacks: the store, the buffer the context holds afterwards and the room offered.
Those of the four files differ in the type of `remain`. -/
def allocCb (remainOf : ByteBuf → Nat) (suggested tie : Nat) (m : BufStore)
    (held : Option Nat) : Option (BufStore × Nat × UvBuf) :=
  match makeRoom remainOf suggested tie m held with
  | none => none
  | some (m', p) =>
    match m'.heap[p]? with
    | none => none
    | some b => some (m', p, offer p b)

def pAllocCb := allocCb intRemain

def dAllocCb := allocCb intRemain

def caAllocCb := allocCb intRemain

def paAllocCb := allocCb uintRemain

/-! ## Well-formed buffers -/

structure ByteBuf.Wf (cap : Nat) (b : ByteBuf) : Prop where
  size_eq : b.size = cap
  read_nonneg : 0 ≤ b.readIdx
  read_le : b.readIdx ≤ b.writeIdx
  write_le : b.writeIdx ≤ b.buf.length
  stored_le : b.buf.length ≤ cap

namespace ByteBuf
variable {cap : Nat} {b : ByteBuf}

theorem Wf.write_le_size (hb : b.Wf cap) : b.writeIdx ≤ b.size := by
  have := hb.write_le
  have := hb.stored_le
  have := hb.size_eq
  omega

theorem Wf.unread_length (hb : b.Wf cap) :
    (b.unread.length : Int) = b.writeIdx - b.readIdx := by
  have := hb.read_nonneg
  have := hb.read_le
  have := hb.write_le
  simp only [unread, ptr, List.length_take, List.length_drop]
  omega

theorem Wf.unread_eq_nil_iff (hb : b.Wf cap) : b.unread = [] ↔ ¬ b.readIdx < b.writeIdx := by
  have := hb.unread_length
  rw [← List.length_eq_zero_iff]
  omega

theorem Wf.ptr_take (hb : b.Wf cap) {n : Nat} (hn : n ≤ b.unread.length) :
    b.ptr.take n = b.unread.take n := by
  have := hb.unread_length
  rw [unread, List.take_take, Nat.min_eq_left (by omega)]

theorem Wf.flip (hb : b.Wf cap) : (bufFlip b).Wf cap :=
  ⟨hb.size_eq, Int.le_refl _, Int.le_refl _, by simp [bufFlip], hb.stored_le⟩

theorem createBuf_wf (cap : Nat) : (createBuf cap).Wf cap :=
  ⟨rfl, Int.le_refl _, Int.le_refl _, by simp [createBuf], by simp [createBuf]⟩

theorem Wf.addRead (hb : b.Wf cap) {n : Nat} (hn : n ≤ b.unread.length) :
    (b.addRead n).Wf cap := by
  have := hb.unread_length
  have := hb.read_nonneg
  exact ⟨hb.size_eq, by simp [ByteBuf.addRead]; omega, by simp [ByteBuf.addRead]; omega,
    hb.write_le, hb.stored_le⟩

theorem Wf.unread_addRead (hb : b.Wf cap) (n : Nat) :
    (b.addRead n).unread = b.unread.drop n := by
  have := hb.read_nonneg
  simp only [unread, ptr, ByteBuf.addRead, List.drop_take, List.drop_drop]
  congr 2 <;> omega

theorem Wf.received (hb : b.Wf cap) {chunk : Bytes} (hint : b.writeIdx + chunk.length < 2147483648)
    (hlen : b.writeIdx + chunk.length ≤ cap) :
    ((b.fill b.writeIdx chunk).addWritten chunk.length).Wf cap ∧
      ((b.fill b.writeIdx chunk).addWritten chunk.length).unread = b.unread ++ chunk := by
  have h0 := hb.read_nonneg
  have h1 := hb.read_le
  have h2 := hb.write_le
  have h3 := hb.stored_le
  obtain ⟨w, hw⟩ : ∃ w : Nat, b.writeIdx = w := Int.eq_ofNat_of_zero_le (by omega)
  obtain ⟨r, hr⟩ := Int.eq_ofNat_of_zero_le h0
  have hwi : ((b.fill b.writeIdx chunk).addWritten chunk.length).writeIdx = w + chunk.length := by
    have hwrap := toInt32_of_isInt32 (x := b.writeIdx + chunk.length) ⟨by omega, by omega⟩
    rw [addWritten, fill_writeIdx, hwrap, hw]
  have hbuf : ((b.fill b.writeIdx chunk).addWritten chunk.length).buf =
      b.buf.take w ++ chunk ++ b.buf.drop (w + chunk.length) := by
    rw [addWritten_buf, fill, hw]
    simp only [Int.toNat_natCast]
    rw [List.takeD_eq_take _ (by omega)]
  have hlength : ((b.fill b.writeIdx chunk).addWritten chunk.length).buf.length =
      w + chunk.length + (b.buf.length - (w + chunk.length)) := by
    rw [hbuf]
    simp only [List.length_append, List.length_take, List.length_drop]
    omega
  constructor
  · refine ⟨hb.size_eq, h0, ?_, ?_, ?_⟩
    · rw [hwi, addWritten_readIdx, fill_readIdx]
      omega
    · rw [hwi, hlength]
      omega
    · rw [hlength]
      omega
  · have hsub : ((w : Int) + chunk.length - r).toNat = (w - r) + chunk.length := by omega
    have hsub' : ((w : Int) - r).toNat = w - r := by omega
    rw [unread, unread, ptr, ptr, hwi, hbuf, addWritten_readIdx, fill_readIdx, hr, hw, hsub, hsub',
      Int.toNat_natCast, List.append_assoc, List.drop_append_of_le_length (by simp; omega),
      List.drop_take, List.take_append, List.take_take, List.length_take, List.length_drop,
      Nat.min_eq_right (by omega), Nat.min_eq_left (by omega), Nat.add_sub_cancel_left,
      List.take_append_of_le_length (Nat.le_refl _), List.take_of_length_le (Nat.le_refl _)]

end ByteBuf

theorem copyLoop_eq {old new : ByteBuf} {k j : Nat} {pre suf : Bytes}
    (h0 : 0 ≤ old.readIdx) (hold : old.readIdx.toNat + j + k ≤ old.buf.length)
    (hbuf : new.buf = pre ++ suf) (hpre : pre.length = j) (hnew : j + k ≤ new.size) :
    copyLoop old k (old.readIdx + j) new = some { new with
      writeIdx := new.writeIdx + k
      buf := pre ++ (old.buf.drop (old.readIdx.toNat + j)).take k ++ suf.drop k } := by
  induction k generalizing j new pre suf with
  | zero =>
    cases new
    simp_all [copyLoop]
  | succ k ih =>
    have hi : (old.readIdx + j).toNat = old.readIdx.toNat + j := by omega
    have hlt : old.readIdx.toNat + j < old.buf.length := by omega
    have hload : old.load (old.readIdx + j) = some old.buf[old.readIdx.toNat + j] := by
      rw [ByteBuf.load, if_pos (by omega), hi]
      exact List.getElem?_eq_getElem hlt
    have hstore : new.store (old.readIdx + j - old.readIdx) old.buf[old.readIdx.toNat + j] =
        some { new with buf := (pre ++ [old.buf[old.readIdx.toNat + j]]) ++ suf.drop 1 } := by
      have hj : (old.readIdx + j - old.readIdx).toNat = j := by omega
      rw [ByteBuf.store, if_pos ⟨by omega, by omega⟩, hj, hbuf,
        List.takeD_eq_take _ (by rw [List.length_append]; omega), List.take_append_of_le_length
          (by omega), List.take_of_length_le (by omega), List.drop_append, List.drop_of_length_le
          (by omega), hpre, Nat.add_sub_cancel_left]
      simp
    have hdrop : (old.buf.drop (old.readIdx.toNat + j)).take (k + 1) =
        old.buf[old.readIdx.toNat + j] :: (old.buf.drop (old.readIdx.toNat + (j + 1))).take k := by
      rw [List.drop_eq_getElem_cons hlt, List.take_succ_cons]
      rfl
    have hnext : old.readIdx + (j : Int) + 1 = old.readIdx + ((j + 1 : Nat) : Int) := by omega
    simp only [copyLoop, hload, hstore]
    rw [hnext, ih (by omega) rfl (by simp [hpre]) (by simp; omega), hdrop]
    simp only [List.drop_drop, List.append_assoc, List.singleton_append, Option.some.injEq,
      ByteBuf.mk.injEq, true_and]
    refine ⟨by push_cast; omega, ?_⟩
    rw [Nat.add_comm 1 k]

theorem copyUnread_eq {cap : Nat} {old new : ByteBuf} (ho : old.Wf cap) (hn : new.Wf cap)
    (hr : new.readIdx = 0) (hw : new.writeIdx = 0) :
    ∃ b, copyUnread old new = some b ∧ b.Wf cap ∧ b.unread = old.unread ∧ b.readIdx = 0 := by
  have h0 := ho.read_nonneg
  have h1 := ho.read_le
  have h2 := ho.write_le
  have h3 := ho.stored_le
  have h4 := hn.size_eq
  have h5 := hn.stored_le
  obtain ⟨k, hk⟩ : ∃ k : Nat, old.writeIdx - old.readIdx = k :=
    Int.eq_ofNat_of_zero_le (by omega)
  have hcopy : copyLoop old k (old.readIdx + (0 : Nat)) new = some { new with
      writeIdx := new.writeIdx + k
      buf := [] ++ (old.buf.drop (old.readIdx.toNat + 0)).take k ++ new.buf.drop k } :=
    copyLoop_eq h0 (by omega) rfl rfl (by omega)
  have hk' : (old.buf.drop old.readIdx.toNat).length ≥ k := by
    rw [List.length_drop]
    omega
  rw [Int.natCast_zero, Int.add_zero, Nat.add_zero, List.nil_append, hw, Int.zero_add] at hcopy
  rw [copyUnread, hk, Int.toNat_natCast, hcopy]
  refine ⟨_, rfl, ⟨hn.size_eq, ?_, ?_, ?_, ?_⟩, ?_, hr⟩
  · exact Int.le_of_eq hr.symm
  · rw [hr]
    exact Int.natCast_nonneg k
  · simp only [List.length_append, List.length_take]
    omega
  · simp only [List.length_append, List.length_take, List.length_drop]
    omega
  · simp only [ByteBuf.unread, ByteBuf.ptr, hk, hr, Int.toNat_zero, List.drop_zero, Int.sub_zero,
      Int.toNat_natCast]
    rw [List.take_append_of_le_length (by simp; omega), List.take_take, Nat.min_self]

/-! ## The pool -/

namespace BufStore

theorem mem_of_top {m : BufStore} {tie : Nat} {p : Nat} (h : m.top tie = some p) :
    p ∈ m.bufs ∧ ∀ q ∈ m.bufs, m.sizeAt q ≤ m.sizeAt p := by
  have hmem := List.mem_of_getElem? h
  simpa using hmem

/-- All buffers have the one capacity; the pool names each of its buffers once. -/
structure Wf (cap : Nat) (m : BufStore) : Prop where
  buffers : ∀ b ∈ m.heap, b.Wf cap
  pooled : ∀ p ∈ m.bufs, p < m.heap.length
  nodup : m.bufs.Nodup

theorem wf_empty (cap : Nat) : (⟨[], []⟩ : BufStore).Wf cap :=
  ⟨by simp, by simp, List.nodup_nil⟩

def Held (m : BufStore) (p : Nat) : Prop := p < m.heap.length ∧ p ∉ m.bufs

variable {cap : Nat} {m : BufStore}

/-- Nothing about a held buffer other than `held` itself has changed. -/
def Keeps (m m' : BufStore) (held : Option Nat) : Prop :=
  ∀ q, m.Held q → held ≠ some q → m'.heap[q]? = m.heap[q]? ∧ m'.Held q

theorem getElem?_modifyAt (m : BufStore) (p q : Nat) (f : ByteBuf → ByteBuf) :
    (m.modifyAt p f).heap[q]? = if p = q then (m.heap[q]?).map f else m.heap[q]? := by
  rw [modifyAt, List.getElem?_modify]
  split <;> simp

theorem modifyAt_modifyAt (m : BufStore) (p : Nat) (f g : ByteBuf → ByteBuf) :
    (m.modifyAt p f).modifyAt p g = m.modifyAt p (g ∘ f) := by
  simp [modifyAt, List.modify_modify_eq]

theorem held_modifyAt_iff (m : BufStore) (p q : Nat) (f : ByteBuf → ByteBuf) :
    (m.modifyAt p f).Held q ↔ m.Held q := by
  simp [Held, modifyAt]

theorem Wf.modifyAt (hm : m.Wf cap) {p : Nat} {b : ByteBuf} (hb : m.heap[p]? = some b)
    {f : ByteBuf → ByteBuf} (hf : (f b).Wf cap) : (m.modifyAt p f).Wf cap := by
  refine ⟨?_, ?_, hm.nodup⟩
  · intro b' hb'
    obtain ⟨i, hi⟩ := List.getElem?_of_mem hb'
    rw [getElem?_modifyAt] at hi
    split at hi
    · rename_i h
      subst h
      rw [hb, Option.map_some, Option.some.injEq] at hi
      rwa [← hi]
    · exact hm.buffers b' (List.mem_of_getElem? hi)
  · intro q hq
    simpa [BufStore.modifyAt] using hm.pooled q hq

theorem Keeps.refl (m : BufStore) (held : Option Nat) : Keeps m m held :=
  fun _ hq _ => ⟨rfl, hq⟩

theorem keeps_modifyAt (m : BufStore) (p : Nat) (f : ByteBuf → ByteBuf) :
    m.Keeps (m.modifyAt p f) (some p) := by
  intro q hq hne
  refine ⟨?_, (held_modifyAt_iff m p q f).mpr hq⟩
  rw [getElem?_modifyAt, if_neg (fun h => hne (by rw [h]))]

/-- What `pool_malloc` hands out: an empty buffer that nobody held before. -/
structure Given (cap : Nat) (m : BufStore) (r : BufStore × Nat) (b : ByteBuf) : Prop where
  buffer : r.1.heap[r.2]? = some b
  read_eq : b.readIdx = 0
  write_eq : b.writeIdx = 0
  wf : r.1.Wf cap
  held : r.1.Held r.2
  fresh : ∀ q, m.Held q → q ≠ r.2
  keeps : Keeps m r.1 none

theorem create_given (hm : m.Wf cap) : Given cap m (m.create cap) (createBuf cap) := by
  refine ⟨by simp [create], rfl, rfl, ⟨?_, ?_, hm.nodup⟩, ⟨by simp [create], ?_⟩, ?_, ?_⟩
  · intro b hb
    rcases List.mem_append.mp hb with hb | hb
    · exact hm.buffers b hb
    · rw [List.mem_singleton.mp hb]
      exact ByteBuf.createBuf_wf cap
  · intro p hp
    have := hm.pooled p hp
    simp only [create, List.length_append, List.length_singleton]
    omega
  · intro hp
    exact absurd (hm.pooled _ hp) (Nat.lt_irrefl _)
  · intro q hheld heq
    obtain ⟨hq, _⟩ := hheld
    subst heq
    exact absurd hq (Nat.lt_irrefl _)
  · intro q hheld _
    obtain ⟨hq, hnp⟩ := hheld
    refine ⟨List.getElem?_append_left hq, ?_, hnp⟩
    simp only [create, List.length_append, List.length_singleton]
    omega

theorem recycle_given (hm : m.Wf cap) {p : Nat} (hmem : p ∈ m.bufs) :
    ∃ b, Given cap m ({ heap := m.heap.modify p bufFlip, bufs := m.bufs.erase p }, p) b := by
  have hp := hm.pooled p hmem
  refine ⟨bufFlip m.heap[p], ?_, rfl, rfl, ⟨?_, ?_, hm.nodup.erase p⟩,
    ⟨?_, hm.nodup.not_mem_erase⟩, ?_, ?_⟩
  · simp [List.getElem?_eq_getElem hp]
  · intro b hb
    obtain ⟨i, hi, rfl⟩ := List.getElem_of_mem hb
    rw [List.length_modify] at hi
    rw [List.getElem_modify]
    split
    · exact (hm.buffers _ (List.getElem_mem hi)).flip
    · exact hm.buffers _ (List.getElem_mem hi)
  · intro q hq
    rw [List.length_modify]
    exact hm.pooled q (List.mem_of_mem_erase hq)
  · rw [List.length_modify]
    exact hp
  · intro q hheld heq
    obtain ⟨_, hnp⟩ := hheld
    subst heq
    exact hnp hmem
  · intro q hheld _
    obtain ⟨hq, hnp⟩ := hheld
    have hne : p ≠ q := by
      intro heq
      subst heq
      exact hnp hmem
    refine ⟨by simp [hne], ?_, fun h => hnp (List.mem_of_mem_erase h)⟩
    rw [List.length_modify]
    exact hq

theorem poolMalloc_spec (hm : m.Wf cap) (tie : Nat) :
    ∃ b, Given cap m (m.poolMalloc cap tie) b := by
  unfold poolMalloc
  split
  · exact ⟨_, create_given hm⟩
  · rename_i p htop
    split
    · exact ⟨_, create_given hm⟩
    · exact recycle_given hm (mem_of_top htop).1

end BufStore

/-! ## The alloc callbacks -/

def unreadOf (m : BufStore) (held : Option Nat) : Bytes :=
  match held with
  | none => []
  | some p => (m.heap[p]?).elim [] ByteBuf.unread

/-- What an alloc callback establishes, whatever `remain` it computes: the context holds a
well-formed buffer with the same unread bytes, and nobody else's buffer is touched. -/
structure Allocated (cap : Nat) (m : BufStore) (held : Option Nat) (m' : BufStore) (p : Nat)
    (b : ByteBuf) : Prop where
  wf : m'.Wf cap
  buffer : m'.heap[p]? = some b
  holds : m'.Held p
  unread : b.unread = unreadOf m held
  keeps : m.Keeps m' held
  fresh : ∀ q, m.Held q → held ≠ some q → q ≠ p

theorem Allocated.buffer_wf {cap : Nat} {m m' : BufStore} {held : Option Nat} {p : Nat}
    {b : ByteBuf} (h : Allocated cap m held m' p b) : b.Wf cap :=
  h.wf.buffers b (List.mem_of_getElem? h.buffer)

theorem ByteBuf.Wf.offer_len {cap : Nat} {b : ByteBuf} (hb : b.Wf cap) (hcap : cap < 4294967296)
    (p : Nat) : ((offer p b).len : Int) = cap - b.writeIdx := by
  have := hb.size_eq
  have := hb.write_le_size
  have := hb.read_nonneg
  have := hb.read_le
  simp only [offer, toUInt32]
  omega

theorem toUInt32_of_lt {n : Nat} (hn : n < 4294967296) : toUInt32 n = n := by
  unfold toUInt32
  omega

theorem toUInt32_lt (x : Int) : toUInt32 x < 4294967296 := by
  unfold toUInt32
  omega

/-- A context that holds `p` takes a new buffer with the unread bytes of the old one, and the old
one goes back to the pool. -/
theorem BufStore.Given.replaces {cap : Nat} {m : BufStore} {r : BufStore × Nat}
    {new old b : ByteBuf} (hg : Given cap m r new) {p : Nat} (hp : m.Held p)
    (hold : m.heap[p]? = some old) (hb : b.Wf cap) (hu : b.unread = old.unread) :
    Allocated cap m (some p) (({ r.1 with heap := r.1.heap.set r.2 b } : BufStore).poolFree p)
      r.2 b := by
  have hpr := hg.fresh p hp
  have hpr1 := (hg.keeps p hp (by simp)).2
  refine ⟨⟨?_, ?_, List.nodup_cons.mpr ⟨hpr1.2, hg.wf.nodup⟩⟩, ?_, ⟨?_, ?_⟩, ?_, ?_, ?_⟩
  · intro b' hb'
    rcases List.mem_or_eq_of_mem_set hb' with hb' | rfl
    · exact hg.wf.buffers b' hb'
    · exact hb
  · intro q hq
    simp only [BufStore.poolFree, List.length_set]
    rcases List.mem_cons.mp hq with rfl | hq
    · exact hpr1.1
    · exact hg.wf.pooled q hq
  · simp [BufStore.poolFree, List.getElem?_set_self hg.held.1]
  · simpa [BufStore.poolFree] using hg.held.1
  · simp only [BufStore.poolFree, List.mem_cons, not_or]
    exact ⟨hpr.symm, hg.held.2⟩
  · simpa [unreadOf, hold] using hu
  · intro q hq hne
    obtain ⟨hqget, hqheld⟩ := hg.keeps q hq (by simp)
    have hqr := hg.fresh q hq
    refine ⟨?_, ?_, ?_⟩
    · simp only [BufStore.poolFree, List.getElem?_set_ne hqr.symm]
      exact hqget
    · simpa [BufStore.poolFree] using hqheld.1
    · simp only [BufStore.poolFree, List.mem_cons, not_or]
      exact ⟨fun h => hne (by rw [h]), hqheld.2⟩
  · exact fun q hq _ => hg.fresh q hq

/-- Every alloc callback succeeds: the compaction copy stays inside the new buffer. Without enough
room behind them, the unread bytes end up at the start of their buffer. -/
theorem allocCb_spec {remainOf : ByteBuf → Nat} {S : Nat} (hS : 3 ≤ S) (tie : Nat)
    {m : BufStore} (hm : m.Wf (toUInt32 S)) {held : Option Nat}
    (hh : ∀ p, held = some p → m.Held p) :
    ∃ m' p b, allocCb remainOf S tie m held = some (m', p, offer p b) ∧
      Allocated (toUInt32 S) m held m' p b ∧ (S / 3 ≤ remainOf b ∨ b.readIdx = 0) := by
  obtain ⟨new, hg⟩ := BufStore.poolMalloc_spec hm tie
  have hnew : new.Wf (toUInt32 S) := hg.wf.buffers new (List.mem_of_getElem? hg.buffer)
  generalize hr : m.poolMalloc (toUInt32 S) tie = r at hg
  have hget := hg.buffer
  cases held with
  | none =>
    have hu : new.unread = [] := by
      rw [hnew.unread_eq_nil_iff, hg.read_eq, hg.write_eq]
      exact Int.lt_irrefl 0
    refine ⟨r.1, r.2, new, ?_, ⟨hg.wf, hget, hg.held, by simp [hu, unreadOf], hg.keeps,
      fun q hq _ => hg.fresh q hq⟩, Or.inr hg.read_eq⟩
    have hthird : 0 < S / 3 := by omega
    simp [allocCb, makeRoom, hr, hget, hthird]
  | some p =>
    have hp := hh p rfl
    obtain ⟨old, hold⟩ : ∃ old, m.heap[p]? = some old := ⟨_, List.getElem?_eq_getElem hp.1⟩
    have hpwf := hm.buffers old (List.mem_of_getElem? hold)
    by_cases hremain : remainOf old < S / 3
    · obtain ⟨b, hcopy, hb, hu, hb0⟩ := copyUnread_eq hpwf hnew hg.read_eq hg.write_eq
      have halloc := hg.replaces hp hold hb hu
      refine ⟨_, r.2, b, ?_, halloc, Or.inr hb0⟩
      simp only [allocCb, makeRoom, hold, if_pos hremain, hr, hget, hcopy, halloc.buffer]
    · refine ⟨m, p, old, ?_, ⟨hm, hold, hp, by simp [unreadOf, hold], BufStore.Keeps.refl m _,
        fun q _ hne h => hne (by rw [h])⟩, Or.inl (by omega)⟩
      simp only [allocCb, makeRoom, hold, if_neg hremain]

/-- Below 2^31 bytes both kinds of `remain` are the room behind the unread bytes. -/
theorem ByteBuf.Wf.remain {cap : Nat} {b : ByteBuf} (hb : b.Wf cap)
    (hint : b.size - b.writeIdx < 2147483648) :
    (intRemain b : Int) = b.size - b.writeIdx ∧ (uintRemain b : Int) = b.size - b.writeIdx := by
  have := hb.size_eq
  have := hb.write_le_size
  have := hb.read_nonneg
  have := hb.read_le
  unfold intRemain uintRemain toSizeT toUInt32 toInt32
  omega

/-- The first buffer of an empty pool. -/
theorem allocCb_empty (remainOf : ByteBuf → Nat) {S : Nat} (hS : 3 ≤ S) (tie : Nat) :
    allocCb remainOf S tie ⟨[], []⟩ none =
      some (⟨[createBuf (toUInt32 S)], []⟩, 0, ⟨0, 0, toUInt32 S⟩) := by
  have hthird : 0 < S / 3 := by omega
  have hlt := toUInt32_lt S
  have hlen : toUInt32 (toUInt32 S - 0) = toUInt32 S := by
    unfold toUInt32 at hlt ⊢
    omega
  simp only [allocCb, makeRoom, if_pos hthird]
  simp only [BufStore.poolMalloc, BufStore.top, List.filter_nil, List.getElem?_nil]
  simp only [BufStore.create, List.nil_append, List.length_nil, List.getElem?_cons_zero, offer,
    createBuf, hlen]

end PyAgent
