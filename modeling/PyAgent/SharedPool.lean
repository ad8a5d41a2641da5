import PyAgent.ByteBuf
import Mathlib.Logic.Function.Basic
import Mathlib.Logic.Relation

/-!
# Connections sharing one buffer pool

The receive side of pa.cc and ca.cc, whose connections all allocate from the pool
of their server. What the callbacks do with the received bytes is left open: a
connection may consume any number of its unread bytes at any time.
-/

namespace PyAgent.SharedPool
set_option autoImplicit false

universe u

/-- A connection's buffer and pending offer, and what it has received and consumed so far. -/
structure Conn where
  held : Option Nat
  offered : Option UvBuf
  received : Bytes
  consumed : Nat

structure Server (ι : Type u) where
  store : BufStore
  conns : ι → Conn

inductive Event (ι : Type u) where
  | alloc (c : ι) (tie : Nat)
  | read (c : ι) (chunk : Bytes)
  | consume (c : ι) (n : Nat)

def start (ι : Type u) : Server ι := ⟨⟨[], []⟩, fun _ => ⟨none, none, [], 0⟩⟩

variable {ι : Type u} [DecidableEq ι]

def Server.put (s : Server ι) (c : ι) (m : BufStore) (conn : Conn) : Server ι :=
  ⟨m, Function.update s.conns c conn⟩

@[simp] theorem Server.put_store (s : Server ι) (c : ι) (m : BufStore) (conn : Conn) :
    (s.put c m conn).store = m := rfl

@[simp] theorem Server.put_conns_self (s : Server ι) (c : ι) (m : BufStore) (conn : Conn) :
    (s.put c m conn).conns c = conn := Function.update_self _ _ _

theorem Server.put_conns_of_ne (s : Server ι) {c c' : ι} (h : c' ≠ c) (m : BufStore)
    (conn : Conn) : (s.put c m conn).conns c' = s.conns c' := Function.update_of_ne h _ _

/-- `none` where the event cannot happen or where the code would access memory it does not own. -/
def step (remainOf : ByteBuf → Nat) (S : Nat) (s : Server ι) : Event ι → Option (Server ι)
  | .alloc c tie =>
    match allocCb remainOf S tie s.store (s.conns c).held with
    | none => none
    | some (m, p, uv) =>
      some (s.put c m { s.conns c with held := some p, offered := some uv })
  | .read c chunk =>
    match (s.conns c).held, (s.conns c).offered with
    | some p, some uv =>
      if chunk.length ≤ uv.len then
        let m := (s.store.modifyAt uv.block (·.fill uv.base chunk)).modifyAt p
          (·.addWritten chunk.length)
        some (s.put c m { s.conns c with
          offered := none
          received := (s.conns c).received ++ chunk })
      else none
    | _, _ => none
  | .consume c n =>
    match (s.conns c).held with
    | none => none
    | some p =>
      match s.store.heap[p]? with
      | none => none
      | some b =>
        if (n : Int) ≤ b.writeIdx - b.readIdx then
          some (s.put c (s.store.modifyAt p (·.addRead n))
            { s.conns c with consumed := (s.conns c).consumed + n })
        else none

def Reached (remainOf : ByteBuf → Nat) (S : Nat) : Server ι → Prop :=
  Relation.ReflTransGen (fun s s' => ∃ e, step remainOf S s e = some s') (start ι)

structure Inv (cap : Nat) (s : Server ι) : Prop where
  wf : s.store.Wf cap
  holds : ∀ c p, (s.conns c).held = some p → s.store.Held p
  alone : ∀ c c' p, (s.conns c).held = some p → (s.conns c').held = some p → c = c'
  offers : ∀ c uv, (s.conns c).offered = some uv →
    ∃ p b, (s.conns c).held = some p ∧ s.store.heap[p]? = some b ∧ uv = offer p b
  stream : ∀ c, unreadOf s.store (s.conns c).held = (s.conns c).received.drop (s.conns c).consumed
  consumed_le : ∀ c, (s.conns c).consumed ≤ (s.conns c).received.length

omit [DecidableEq ι] in
theorem inv_start (cap : Nat) : Inv cap (start ι) :=
  ⟨BufStore.wf_empty cap, by simp [start], by simp [start], by simp [start],
    by simp [start, unreadOf], by simp [start]⟩

section
variable {cap : Nat} {s : Server ι}

omit [DecidableEq ι] in
theorem Inv.buffer (hs : Inv cap s) {c : ι} {p : Nat} (hp : (s.conns c).held = some p) :
    ∃ b, s.store.heap[p]? = some b ∧ b.Wf cap :=
  ⟨_, List.getElem?_eq_getElem (hs.holds c p hp).1, hs.wf.buffers _ (List.getElem_mem _)⟩

/-- No other connection holds the buffer that is given to one. -/
theorem Inv.put_alone (hs : Inv cap s) {c : ι} {conn : Conn} {m : BufStore} {p : Nat}
    (hheld : conn.held = some p)
    (hother : ∀ c' q, c' ≠ c → (s.conns c').held = some q → q ≠ p) :
    ∀ c₁ c₂ q, ((s.put c m conn).conns c₁).held = some q →
      ((s.put c m conn).conns c₂).held = some q → c₁ = c₂ := by
  have hown : ∀ c' q, c' ≠ c → ((s.put c m conn).conns c').held = some q →
      ((s.put c m conn).conns c).held ≠ some q := by
    intro c' q hc hq hq'
    rw [s.put_conns_of_ne hc] at hq
    rw [Server.put_conns_self, hheld, Option.some.injEq] at hq'
    exact hother c' q hc hq hq'.symm
  intro c₁ c₂ q h₁ h₂
  by_cases hc₁ : c₁ = c
  · subst hc₁
    by_contra hne
    exact hown c₂ q (Ne.symm hne) h₂ h₁
  · by_cases hc₂ : c₂ = c
    · subst hc₂
      exact absurd h₂ (hown c₁ q hc₁ h₁)
    · rw [s.put_conns_of_ne hc₁] at h₁
      rw [s.put_conns_of_ne hc₂] at h₂
      exact hs.alone c₁ c₂ q h₁ h₂

/-- A change of one connection and its buffer that leaves everybody else's alone. -/
theorem Inv.update (hs : Inv cap s) {c : ι} {conn : Conn} {m : BufStore} {p : Nat} {b : ByteBuf}
    (hm : m.Wf cap) (hp : m.Held p) (hb : m.heap[p]? = some b) (hheld : conn.held = some p)
    (hkeeps : s.store.Keeps m (s.conns c).held)
    (hfresh : ∀ q, s.store.Held q → (s.conns c).held ≠ some q → q ≠ p)
    (hoffer : ∀ uv, conn.offered = some uv → uv = offer p b)
    (hstream : b.unread = conn.received.drop conn.consumed)
    (hle : conn.consumed ≤ conn.received.length) :
    Inv cap (s.put c m conn) := by
  have hother : ∀ c' q, c' ≠ c → (s.conns c').held = some q →
      m.heap[q]? = s.store.heap[q]? ∧ m.Held q ∧ q ≠ p := by
    intro c' q hne hq
    have hnot : (s.conns c).held ≠ some q := fun h => hne (hs.alone c' c q hq h)
    have hk := hkeeps q (hs.holds c' q hq) hnot
    exact ⟨hk.1, hk.2, hfresh q (hs.holds c' q hq) hnot⟩
  refine ⟨hm, ?_, ?_, ?_, ?_, ?_⟩
  · intro c' q hq
    by_cases hc : c' = c
    · subst hc
      rw [Server.put_conns_self, hheld, Option.some.injEq] at hq
      exact hq ▸ hp
    · rw [s.put_conns_of_ne hc] at hq
      exact (hother c' q hc hq).2.1
  · exact hs.put_alone hheld fun c' q hc hq => (hother c' q hc hq).2.2
  · intro c' uv huv
    by_cases hc : c' = c
    · subst hc
      rw [Server.put_conns_self] at huv ⊢
      exact ⟨p, b, hheld, hb, hoffer uv huv⟩
    · rw [s.put_conns_of_ne hc] at huv ⊢
      obtain ⟨q, b', hq, hb', huv'⟩ := hs.offers c' uv huv
      exact ⟨q, b', hq, by rw [s.put_store, (hother c' q hc hq).1]; exact hb', huv'⟩
  · intro c'
    by_cases hc : c' = c
    · subst hc
      simpa [hheld, unreadOf, hb] using hstream
    · rw [s.put_conns_of_ne hc, s.put_store, ← hs.stream c']
      cases hq : (s.conns c').held with
      | none => rfl
      | some q => simp only [unreadOf, (hother c' q hc hq).1]
  · intro c'
    by_cases hc : c' = c
    · subst hc
      simpa using hle
    · simpa only [s.put_conns_of_ne hc] using hs.consumed_le c'

/-- The same for a connection that keeps its buffer and changes what is in it. -/
theorem Inv.update_own (hs : Inv cap s) {c : ι} {conn : Conn} {p : Nat} {b : ByteBuf}
    (hp : (s.conns c).held = some p) (hb : s.store.heap[p]? = some b) {f : ByteBuf → ByteBuf}
    (hf : (f b).Wf cap) (hheld : conn.held = some p)
    (hoffer : ∀ uv, conn.offered = some uv → uv = offer p (f b))
    (hstream : (f b).unread = conn.received.drop conn.consumed)
    (hle : conn.consumed ≤ conn.received.length) :
    Inv cap (s.put c (s.store.modifyAt p f) conn) := by
  have hget : (s.store.modifyAt p f).heap[p]? = some (f b) := by
    rw [BufStore.getElem?_modifyAt, if_pos rfl, hb]
    rfl
  have hmine : (s.store.modifyAt p f).Held p :=
    (BufStore.held_modifyAt_iff _ _ _ _).mpr (hs.holds c p hp)
  apply hs.update (hs.wf.modifyAt hb hf) hmine hget hheld _ _ hoffer hstream hle
  · rw [hp]
    exact BufStore.keeps_modifyAt s.store p f
  · intro q _ hne heq
    exact hne (heq ▸ hp)

theorem Inv.alloc {remainOf : ByteBuf → Nat} {S : Nat} (hS : 3 ≤ S)
    (hs : Inv (toUInt32 S) s) (c : ι) (tie : Nat) :
    ∃ s', step remainOf S s (.alloc c tie) = some s' ∧ Inv (toUInt32 S) s' := by
  obtain ⟨m, p, b, halloc, ha, _⟩ : ∃ m p b, allocCb remainOf S tie _ _ = _ ∧ _ :=
    allocCb_spec hS tie hs.wf (hs.holds c)
  simp only [step, halloc]
  refine ⟨_, rfl, hs.update ha.wf ha.holds ha.buffer rfl ha.keeps ha.fresh ?_ ?_
    (hs.consumed_le c)⟩
  · intro uv huv
    exact (Option.some.inj huv).symm
  · rw [ha.unread]
    exact hs.stream c

theorem Inv.read {remainOf : ByteBuf → Nat} {S : Nat} (hcap : cap < 2147483648) (hs : Inv cap s)
    {c : ι} {chunk : Bytes} {s' : Server ι} (h : step remainOf S s (.read c chunk) = some s') :
    Inv cap s' := by
  simp only [step] at h
  split at h
  · rename_i p uv hp huv
    split at h
    · rename_i hlen
      obtain ⟨q, b, hq, hb, rfl⟩ := hs.offers c uv huv
      obtain rfl : p = q := Option.some.inj (hp.symm.trans hq)
      have hwf := hs.wf.buffers b (List.mem_of_getElem? hb)
      have hroom := hwf.offer_len (by omega) p
      obtain ⟨hwf', hu⟩ : ((b.fill b.writeIdx chunk).addWritten chunk.length).Wf cap ∧ _ :=
        hwf.received (by omega) (by omega)
      rw [← Option.some.inj h]
      simp only [offer, BufStore.modifyAt_modifyAt]
      apply hs.update_own hp hb
      · exact hwf'
      · exact hp
      · simp
      · have hstream := hs.stream c
        simp only [hp, unreadOf, hb, Option.elim_some] at hstream
        rw [Function.comp_apply, hu, hstream, List.drop_append_of_le_length (hs.consumed_le c)]
      · rw [List.length_append]
        exact Nat.le_add_right_of_le (hs.consumed_le c)
    · cases h
  · cases h

theorem Inv.consume {remainOf : ByteBuf → Nat} {S : Nat} (hs : Inv cap s) {c : ι} {n : Nat}
    {s' : Server ι} (h : step remainOf S s (.consume c n) = some s') : Inv cap s' := by
  simp only [step] at h
  split at h
  · cases h
  · rename_i p hp
    obtain ⟨b, hb, hwf⟩ := hs.buffer hp
    rw [hb] at h
    simp only at h
    split at h
    · rename_i hn
      have hlen := hwf.unread_length
      have hstream := hs.stream c
      simp only [hp, unreadOf, hb, Option.elim_some] at hstream
      have hdrop := congrArg List.length hstream
      rw [List.length_drop] at hdrop
      have hle := hs.consumed_le c
      rw [← Option.some.inj h]
      apply hs.update_own hp hb
      · exact hwf.addRead (by omega)
      · exact hp
      · intro uv huv
        obtain ⟨q, b', hq, hb', rfl⟩ := hs.offers c uv huv
        obtain rfl : p = q := Option.some.inj (hp.symm.trans hq)
        obtain rfl : b = b' := Option.some.inj (hb.symm.trans hb')
        rfl
      · rw [hwf.unread_addRead, hstream, List.drop_drop]
      · simp only
        omega
    · cases h

end

theorem inv_of_reached {remainOf : ByteBuf → Nat} {S : Nat} (hS : 3 ≤ S) (hS' : S < 2147483648)
    {s : Server ι} (h : Reached remainOf S s) : Inv (toUInt32 S) s := by
  have hcap : toUInt32 S = S := by
    unfold toUInt32
    omega
  induction h with
  | refl => exact inv_start _
  | tail _ hstep ih =>
    obtain ⟨e, he⟩ := hstep
    cases e with
    | alloc c tie =>
      obtain ⟨s', hs', hinv⟩ := ih.alloc hS c tie
      rw [hs'] at he
      exact Option.some.inj he ▸ hinv
    | read c chunk => exact ih.read (by omega) he
    | consume c n => exact ih.consume he

/-- The pool is safe to share: buffers have one owner each, indices stay in order inside the
block, alloc callbacks never copy out of bounds, and every connection reads back exactly its own
bytes. -/
structure Safe (remainOf : ByteBuf → Nat) (S : Nat) (s : Server ι) : Prop where
  one_holder : ∀ c c' p, (s.conns c).held = some p → (s.conns c').held = some p → c = c'
  not_pooled : ∀ c p, (s.conns c).held = some p → p ∉ s.store.bufs
  pool_nodup : s.store.bufs.Nodup
  indices : ∀ c p, (s.conns c).held = some p → ∃ b, s.store.heap[p]? = some b ∧
    0 ≤ b.readIdx ∧ b.readIdx ≤ b.writeIdx ∧ b.writeIdx ≤ b.size
  unread : ∀ c, unreadOf s.store (s.conns c).held = (s.conns c).received.drop (s.conns c).consumed
  alloc_ok : ∀ c tie, (step remainOf S s (.alloc c tie)).isSome

theorem shared_pool_safe {remainOf : ByteBuf → Nat} {S : Nat} (hS : 3 ≤ S) (hS' : S < 2147483648)
    {s : Server ι} (h : Reached remainOf S s) : Safe remainOf S s := by
  have hs := inv_of_reached hS hS' h
  refine ⟨hs.alone, fun c p hp => (hs.holds c p hp).2, hs.wf.nodup, ?_, hs.stream, ?_⟩
  · intro c p hp
    obtain ⟨b, hb, hwf⟩ := hs.buffer hp
    exact ⟨b, hb, hwf.read_nonneg, hwf.read_le, hwf.write_le_size⟩
  · intro c tie
    obtain ⟨s', hs', _⟩ := hs.alloc hS c tie
    exact Option.isSome_iff_exists.mpr ⟨s', hs'⟩

/-- Two connections in turn; the second one consumes a byte and is offered the rest again. -/
theorem shared_pool_safe_two_conns : ∃ s : Server Bool, Reached intRemain 65536 s ∧
    (s.conns false).received = [1, 2] ∧ (s.conns true).received = [7, 0, 9] ∧
    (s.conns true).consumed = 1 ∧ Safe intRemain 65536 s := by
  have hr : ∃ s : Server Bool, Reached intRemain 65536 s ∧ (s.conns false).received = [1, 2] ∧
      (s.conns true).received = [7, 0, 9] ∧ (s.conns true).consumed = 1 := by
    refine ⟨_, (((((Relation.ReflTransGen.refl.tail ⟨.alloc true 0, rfl⟩).tail
      ⟨.alloc false 0, rfl⟩).tail ⟨.read true [7, 0, 9], rfl⟩).tail ⟨.read false [1, 2], rfl⟩).tail
      ⟨.consume true 1, rfl⟩).tail ⟨.alloc true 0, rfl⟩, rfl, rfl, rfl⟩
  obtain ⟨s, hreach, hfalse, htrue, hconsumed⟩ := hr
  exact ⟨s, hreach, hfalse, htrue, hconsumed, shared_pool_safe (by omega) (by omega) hreach⟩

end PyAgent.SharedPool
