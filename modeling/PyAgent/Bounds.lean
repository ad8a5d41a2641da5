import PyAgent.PaServer
import PyAgent.DubboClient
import PyAgent.PaClient
import PyAgent.XMalloc

/-!
# Inside the receive buffer

The read loops one statement at a time. Their indices never leave the buffer, but
the lengths that come with the strings are signed: a negative one passes the test
`write_idx - read_idx >= len` and reaches `x_malloc` and `strncpy`. `in_bounds_iff`
says that nothing else goes wrong, for any wire format.
-/

namespace PyAgent
set_option autoImplicit false

open Streaming Relation

/-- A read callback between two statements of its loop. -/
structure Moment (τ σ ω κ : Type) where
  todo : List (Field τ σ ω)
  rx : Rx σ κ

section
variable {τ σ ω κ : Type} [DecidableEq τ]

/-- The test of the loop, or one statement of its body that control falls through. -/
inductive Wire.Tick (W : Wire τ σ ω) (hook : κ → ω → Option κ) :
    Moment τ σ ω κ → Moment τ σ ω κ → Prop where
  | test {l : Rx σ κ} : l.more = true → Tick W hook ⟨[], l⟩ ⟨W.fields, l⟩
  | stmt {f : Field τ σ ω} {fs : List (Field τ σ ω)} {l l' : Rx σ κ} :
      f.run W.stage hook l = .next l' → Tick W hook ⟨f :: fs, l⟩ ⟨fs, l'⟩

def Wire.Gets (W : Wire τ σ ω) (hook : κ → ω → Option κ) :
    Moment τ σ ω κ → Moment τ σ ω κ → Prop :=
  ReflTransGen (W.Tick hook)

section
variable {W : Wire τ σ ω} {hook : κ → ω → Option κ}

theorem Wire.gets_of_seq_next {fs : List (Field τ σ ω)} {l l' : Rx σ κ}
    (h : seq (fs.map (Field.run W.stage hook)) l = .next l') : W.Gets hook ⟨fs, l⟩ ⟨[], l'⟩ := by
  induction fs generalizing l with
  | nil =>
    obtain rfl : l = l' := Flow.next.inj h
    exact .refl
  | cons f fs ih =>
    rw [List.map_cons] at h
    cases hf : f.run W.stage hook l with
    | next l₁ =>
      rw [seq_cons_next hf] at h
      exact .head (.stmt hf) (ih h)
    | leave l₁ =>
      rw [seq_cons_leave hf] at h
      cases h
    | fault =>
      rw [seq_cons_fault hf] at h
      cases h

theorem Wire.gets_of_seq_leave {fs : List (Field τ σ ω)} {l l' : Rx σ κ}
    (h : seq (fs.map (Field.run W.stage hook)) l = .leave l') :
    ∃ gs, W.Gets hook ⟨fs, l⟩ ⟨gs, l'⟩ := by
  induction fs generalizing l with
  | nil => cases h
  | cons f fs ih =>
    rw [List.map_cons] at h
    cases hf : f.run W.stage hook l with
    | next l₁ =>
      rw [seq_cons_next hf] at h
      obtain ⟨gs, hgs⟩ := ih h
      exact ⟨gs, .head (.stmt hf) hgs⟩
    | leave l₁ =>
      rw [seq_cons_leave hf] at h
      obtain rfl := Field.run_leave hf
      obtain rfl : l₁ = l' := Flow.leave.inj h
      exact ⟨f :: fs, .refl⟩
    | fault =>
      rw [seq_cons_fault hf] at h
      cases h

theorem Wire.body_eq_seq : body (W.stmts hook) = seq (W.fields.map (Field.run W.stage hook)) := by
  simp only [body, Wire.stmts, List.map_map]
  rfl

/-- The loop passes through moments only, and what it returns is the state at one of them. -/
theorem Wire.gets_of_readLoop {n : Nat} {l l' : Rx σ κ}
    (h : W.readLoop hook n l = some (.done l')) : ∃ gs, W.Gets hook ⟨[], l⟩ ⟨gs, l'⟩ := by
  unfold Wire.readLoop at h
  induction n generalizing l with
  | zero => cases h
  | succ n ih =>
    cases hc : l.more with
    | false =>
      rw [loop_exit hc] at h
      obtain rfl : l = l' := Exit.done.inj (Option.some.inj h)
      exact ⟨[], .refl⟩
    | true =>
      cases hb : body (W.stmts hook) l with
      | next l₁ =>
        rw [loop_next hc hb] at h
        rw [Wire.body_eq_seq] at hb
        obtain ⟨gs, hgs⟩ := ih h
        exact ⟨gs, .head (.test hc) ((Wire.gets_of_seq_next hb).trans hgs)⟩
      | leave l₁ =>
        rw [loop_leave hc hb] at h
        obtain rfl : l₁ = l' := Exit.done.inj (Option.some.inj h)
        rw [Wire.body_eq_seq] at hb
        obtain ⟨gs, hgs⟩ := Wire.gets_of_seq_leave hb
        exact ⟨gs, .head (.test hc) hgs⟩
      | fault =>
        rw [loop_fault hc hb] at h
        cases h

end

/-- The moments of the read callbacks of one connection while these chunks arrive. -/
inductive Link.Passes (C : ReadCbs σ κ) (S : Nat) (W : Wire τ σ ω) (hook : κ → ω → Option κ) :
    List (κ × Nat × Bytes) → Link σ κ → Moment τ σ ω κ → Prop where
  | now {env : κ} {tie : Nat} {chunk : Bytes} {es : List (κ × Nat × Bytes)} {k : Link σ κ}
      {st : BufStore} {p : Nat} {l : Rx σ κ} {m : Moment τ σ ω κ} :
      Link.opened C S { k with env := env } tie chunk = some (st, p, l) →
      W.Gets hook ⟨[], l.arrive chunk.length⟩ m → Passes C S W hook ((env, tie, chunk) :: es) k m
  | later {env : κ} {tie : Nat} {chunk : Bytes} {es : List (κ × Nat × Bytes)} {k k' : Link σ κ}
      {m : Moment τ σ ω κ} :
      Link.complete C S { k with env := env } tie chunk = some k' →
      Passes C S W hook es k' m → Passes C S W hook ((env, tie, chunk) :: es) k m

/-! ## Strings and their lengths -/

/-- A string of a wire format: the statement that reads its length and the one that copies it. -/
structure Str (τ σ ω : Type) where
  lenTag : τ
  tag : τ
  setLen : σ → Int → σ
  len : σ → Int
  set : σ → Bytes → σ
  emit : σ → List ω := fun _ => []

def Str.lenField (p : Str τ σ ω) : Field τ σ ω := PyAgent.lenField p.lenTag p.setLen

def Str.field (p : Str τ σ ω) : Field τ σ ω := strField p.tag p.len p.set p.emit

/-- The strings of a wire format. Each is copied right behind its length, in contexts that are as
the callbacks keep them. -/
structure Strings (W : Wire τ σ ω) where
  strs : List (Str τ σ ω)
  keeps : σ → Prop
  keeps_store : ∀ f ∈ W.fields, ∀ c bs, keeps c → W.stage c = f.tag → keeps (f.store c bs)
  adjacent : ∀ p ∈ strs, ∃ fs, p.lenField :: p.field :: fs <:+ W.fields
  stage : ∀ p ∈ strs, ∀ c n, W.stage c = p.lenTag → W.stage (p.setLen c n) = p.tag
  len : ∀ p ∈ strs, ∀ c n, p.len (p.setLen c n) = n
  only : ∀ p ∈ strs, ∀ f ∈ W.fields, ∀ c bs, keeps c → W.stage c = f.tag →
    W.stage (f.store c bs) = p.tag → f.tag = p.lenTag

/-- The next statement copies `p`. -/
structure Moment.Copies (W : Wire τ σ ω) (m : Moment τ σ ω κ) (p : Str τ σ ω) : Prop where
  next : ∃ fs, m.todo = p.field :: fs
  stage : W.stage m.rx.ctx = p.tag
  enough : p.len m.rx.ctx ≤ m.rx.buf.writeIdx - m.rx.buf.readIdx

/-- The next statement reads the length of `p`. -/
structure Moment.Sizes (W : Wire τ σ ω) (m : Moment τ σ ω κ) (p : Str τ σ ω) : Prop where
  next : ∃ fs, m.todo = p.lenField :: fs
  stage : W.stage m.rx.ctx = p.lenTag
  enough : 4 ≤ m.rx.buf.writeIdx - m.rx.buf.readIdx

/-- Asked for `size` bytes, `x_malloc` gives a block of at least `n`. -/
def XMem.Gives (size : Nat) (n : Int) : Prop :=
  ∀ h sys, Reached h → h.capacity sys = none → ∃ h' p c, step h (.xMalloc size sys) = some h' ∧
    h'.handed = p :: h.handed ∧ h'.capacity p = some c ∧ n ≤ c

variable {W : Wire τ σ ω}

/-- `fk` is the `FK` of the callback's file. -/
structure Moment.InBounds (T : Strings W) (fk : Int) (m : Moment τ σ ω κ) : Prop where
  read_nonneg : 0 ≤ m.rx.buf.readIdx
  read_le : m.rx.buf.readIdx ≤ m.rx.buf.writeIdx
  write_le : m.rx.buf.writeIdx ≤ m.rx.buf.size
  copies : ∀ p ∈ T.strs, m.Copies W p → 0 ≤ p.len m.rx.ctx ∧
    p.len m.rx.ctx ≤ m.rx.buf.writeIdx - m.rx.buf.readIdx ∧
    XMem.Gives (toSizeT (toInt32 (p.len m.rx.ctx + fk))) (p.len m.rx.ctx)

/-- A length that is about to be read is not negative. -/
def Moment.SizeOk (T : Strings W) (m : Moment τ σ ω κ) : Prop :=
  ∀ p ∈ T.strs, m.Sizes W p → 0 ≤ bytes2int m.rx.buf.ptr

structure Moment.Inv (T : Strings W) (cap : Nat) (m : Moment τ σ ω κ) : Prop where
  wf : m.rx.buf.Wf cap
  ok : W.ok m.rx.ctx
  todo : m.todo <:+ W.fields
  keeps : T.keeps m.rx.ctx

def Strings.Ready (T : Strings W) (c : σ) : Prop :=
  ∀ p ∈ T.strs, W.stage c = p.tag → 0 ≤ p.len c

variable {T : Strings W} {hook : κ → ω → Option κ} {cap : Nat} {m m' : Moment τ σ ω κ}

theorem Strings.lenField_mem {p : Str τ σ ω} (hp : p ∈ T.strs) : p.lenField ∈ W.fields := by
  obtain ⟨fs, hfs⟩ := T.adjacent p hp
  exact hfs.subset List.mem_cons_self

theorem Wire.Tick.inv (h : W.Tick hook m m') (hm : m.Inv T cap) : m'.Inv T cap := by
  cases h with
  | test _ => exact ⟨hm.wf, hm.ok, List.suffix_refl _, hm.keeps⟩
  | @stmt f fs l l' hrun =>
    have hf : f ∈ W.fields := hm.todo.subset List.mem_cons_self
    have htodo : fs <:+ W.fields := (List.suffix_cons f fs).trans hm.todo
    rcases Field.run_cases hrun with rfl | ⟨hstage, _, _, hctx⟩
    · exact ⟨hm.wf, hm.ok, htodo, hm.keeps⟩
    · have hmeets : Meets W.decoder hook (Rx.view σ κ) (fun l => l.buf.Wf cap ∧ W.ok l.ctx) l
          (f.run W.stage hook l) := Wire.field_meets hf hm.wf hstage
      rw [hrun] at hmeets
      have hkeeps : T.keeps l'.ctx := by
        rw [hctx]
        exact T.keeps_store f hf _ _ hm.keeps hstage
      cases hmeets with
      | step _ _ _ _ hl' => exact ⟨hl'.1, hl'.2, htodo, hkeeps⟩
      | refuse _ => exact ⟨hm.wf, hm.ok, htodo, hm.keeps⟩

theorem Wire.Tick.ready (h : W.Tick hook m m') (hm : m.Inv T cap) (hsize : m.SizeOk T)
    (hready : T.Ready m.rx.ctx) : T.Ready m'.rx.ctx := by
  cases h with
  | test _ => exact hready
  | @stmt f fs l l' hrun =>
    have hf : f ∈ W.fields := hm.todo.subset List.mem_cons_self
    rcases Field.run_cases hrun with rfl | ⟨hstage, _, henough, hctx⟩
    · exact hready
    · intro p hp hnext
      simp only at hctx hnext ⊢
      rw [hctx] at hnext ⊢
      have htag := T.only p hp f hf _ _ hm.keeps hstage hnext
      obtain rfl : f = p.lenField :=
        Wire.active_unique hf hstage (T.lenField_mem hp) (hstage.trans htag)
      have hlen : p.len (p.lenField.store l.ctx l.buf.ptr) = bytes2int l.buf.ptr :=
        T.len p hp _ _
      rw [hlen]
      exact hsize p hp ⟨⟨fs, rfl⟩, hstage, henough⟩

theorem Wire.Gets.inv (h : W.Gets hook m m') (hm : m.Inv T cap) : m'.Inv T cap := by
  induction h with
  | refl => exact hm
  | tail _ htick ih => exact htick.inv ih

theorem Wire.Gets.ready (h : W.Gets hook m m') (hm : m.Inv T cap)
    (hsize : ∀ m₁, W.Gets hook m m₁ → m₁.SizeOk T) (hready : T.Ready m.rx.ctx) :
    T.Ready m'.rx.ctx := by
  induction h with
  | refl => exact hready
  | tail hgets htick ih => exact htick.ready (Wire.Gets.inv hgets hm) (hsize _ hgets) ih

theorem XMem.gives_of_le {size : Nat} {n : Int} (hsize : size < 9223372036854775808)
    (hn : n ≤ size) : Gives size n := by
  intro h sys hreach hsys
  obtain ⟨_, _, c, hc, hle, _⟩ := (inv_of_reached hreach).xMalloc_spec hsize hsys
  exact ⟨_, _, c, if_pos ⟨hsize, hsys⟩, rfl, hc, by omega⟩

theorem Moment.Inv.inBounds (hm : m.Inv T cap) (hready : T.Ready m.rx.ctx) {fk : Int}
    (hfk : 0 ≤ fk) (hcap : cap + fk < 2147483648) : m.InBounds T fk := by
  have hle := hm.wf.write_le_size
  have hsize := hm.wf.size_eq
  have hr := hm.wf.read_nonneg
  refine ⟨hr, hm.wf.read_le, hle, ?_⟩
  intro p hp hcopies
  have h0 := hready p hp hcopies.stage
  have henough := hcopies.enough
  refine ⟨h0, henough, XMem.gives_of_le ?_ ?_⟩
  · unfold toSizeT toInt32
    omega
  · unfold toSizeT toInt32
    omega

/-- The statement behind a negative length reads it as the length of its string. -/
theorem Moment.Inv.sizeOk (hm : m.Inv T cap) {fk : Int}
    (hbounds : ∀ m', W.Gets hook m m' → m'.InBounds T fk) : m.SizeOk T := by
  intro p hp hsizes
  by_contra hneg
  obtain ⟨todo, l⟩ := m
  obtain ⟨fs, rfl⟩ : ∃ fs, todo = p.lenField :: fs := hsizes.next
  obtain ⟨gs, hgs⟩ := T.adjacent p hp
  have hstage : W.stage l.ctx = p.lenTag := hsizes.stage
  have henough : 4 ≤ l.buf.writeIdx - l.buf.readIdx := hsizes.enough
  have hrest := (W.rest_eq hm.todo hstage).symm.trans (W.rest_eq hgs hstage)
  obtain rfl : fs = p.field :: gs := (List.cons.inj hrest).2
  let l' : Rx σ κ := ⟨p.setLen l.ctx (bytes2int l.buf.ptr), l.buf.addRead 4, l.env⟩
  have hrun : p.lenField.run W.stage hook l = .next l' := by
    have htag : W.stage l.ctx = p.lenField.tag := hstage
    have hneed : p.lenField.need l.ctx = 4 := rfl
    rw [Field.run, if_pos htag, hneed, if_pos henough]
    rfl
  have hlen : p.len l'.ctx = bytes2int l.buf.ptr := T.len p hp _ _
  have hcopies : Moment.Copies W (⟨p.field :: gs, l'⟩ : Moment τ σ ω κ) p := by
    refine ⟨⟨gs, rfl⟩, T.stage p hp _ _ hstage, ?_⟩
    simp only [hlen, l', ByteBuf.addRead] at hneg ⊢
    omega
  have h0 := ((hbounds _ (.single (.stmt hrun))).copies p hp hcopies).1
  simp only [hlen] at h0
  exact hneg h0

/-! ## Whole connections -/

section
/-- A connection between two reads. -/
structure Link.Rests (T : Strings W) (cap : Nat) (k : Link σ κ) : Prop where
  good : k.Good W cap
  waits : W.decoder.Waits k.ctx k.unread
  keeps : T.keeps k.ctx

theorem Link.Rests.setEnv {k : Link σ κ} (hk : k.Rests T cap) (env : κ) :
    Link.Rests T cap { k with env := env } :=
  ⟨⟨hk.good.wf, hk.good.holds, hk.good.ok⟩, hk.waits, hk.keeps⟩

variable {C : ReadCbs σ κ} {S : Nat} (hC : C.Implements W hook) (hS : 3 ≤ S)
variable (hcap : toUInt32 S < 2147483648)
include hC hS hcap

theorem Link.opened_inv {k : Link σ κ} (hk : k.Good W (toUInt32 S)) (hkeeps : T.keeps k.ctx)
    {tie : Nat} {chunk : Bytes} {st : BufStore} {p : Nat} {l : Rx σ κ}
    (h : k.opened C S tie chunk = some (st, p, l)) :
    Opened W (toUInt32 S) k chunk st p l ∧
      Moment.Inv T (toUInt32 S) ⟨[], l.arrive chunk.length⟩ := by
  have hroom : ∀ n, k.room C S tie = some n →
      chunk.length ≤ n ∧ toUInt32 S + chunk.length < 2147483648 + n := by
    intro n hn
    have hfit : chunk.length ≤ n := by
      unfold opened at h
      unfold room at hn
      cases halloc : C.alloc S tie k.store k.held with
      | none => simp [halloc] at h
      | some r =>
        obtain ⟨m, q, uv⟩ := r
        simp only [halloc, Option.map_some, Option.some.injEq] at h hn
        subst hn
        by_contra hgt
        rw [if_neg hgt] at h
        cases h
    exact ⟨hfit, by omega⟩
  obtain ⟨st', p', l', hopened, ho⟩ := opened_spec hC hS hk tie chunk hroom
  obtain ⟨rfl, rfl, rfl⟩ : st' = st ∧ p' = p ∧ l' = l := by
    simpa using hopened.symm.trans h
  have hok : W.ok l'.ctx := by
    rw [ho.ctx]
    exact hk.ok
  have hkeeps' : T.keeps l'.ctx := by
    rw [ho.ctx]
    exact hkeeps
  exact ⟨ho, ho.wf, hok, List.nil_suffix, hkeeps'⟩

omit hS hcap in
/-- A completion that comes back leaves the context as it is at one of its moments. -/
theorem Link.gets_of_complete {k k' : Link σ κ} {tie : Nat} {chunk : Bytes}
    (h : k.complete C S tie chunk = some k') :
    ∃ st p l m, k.opened C S tie chunk = some (st, p, l) ∧
      W.Gets hook ⟨[], l.arrive chunk.length⟩ m ∧ m.rx.ctx = k'.ctx := by
  obtain ⟨st, p, l, l', hopened, hread, rfl⟩ := exists_of_complete C S h
  rcases hC.read chunk.length l with hloop | ⟨hzero, hskip⟩
  · rw [hloop] at hread
    obtain ⟨gs, hgs⟩ := Wire.gets_of_readLoop hread
    exact ⟨st, p, l, ⟨gs, l'⟩, hopened, hgs, rfl⟩
  · rw [hskip] at hread
    obtain rfl := Exit.done.inj (Option.some.inj hread)
    exact ⟨st, p, l, _, hopened, .refl, rfl⟩

theorem Link.Rests.complete {k k' : Link σ κ} (hk : k.Rests T (toUInt32 S)) {tie : Nat}
    {chunk : Bytes} (h : k.complete C S tie chunk = some k') : k'.Rests T (toUInt32 S) := by
  obtain ⟨hgood, _, hs, _⟩ :=
    settles_of_complete hC hS hk.good (room_of_complete hcap h) hk.waits h
  refine ⟨hgood, hs.2, ?_⟩
  obtain ⟨st, p, l, m, hopened, hgets, hctx⟩ := gets_of_complete hC h
  obtain ⟨_, hinv⟩ := opened_inv (T := T) hC hS hcap hk.good hk.keeps hopened
  rw [← hctx]
  exact (Wire.Gets.inv hgets hinv).keeps

theorem Link.Rests.ready {k k' : Link σ κ} (hk : k.Rests T (toUInt32 S)) (hready : T.Ready k.ctx)
    {tie : Nat} {chunk : Bytes} (h : k.complete C S tie chunk = some k')
    (hsize : ∀ st p l m, k.opened C S tie chunk = some (st, p, l) →
      W.Gets hook ⟨[], l.arrive chunk.length⟩ m → m.SizeOk T) : T.Ready k'.ctx := by
  obtain ⟨st, p, l, m, hopened, hgets, hctx⟩ := gets_of_complete hC h
  obtain ⟨ho, hinv⟩ := opened_inv (T := T) hC hS hcap hk.good hk.keeps hopened
  rw [← hctx]
  apply Wire.Gets.ready hgets hinv (fun m₁ h₁ => hsize st p l m₁ hopened h₁)
  rw [← ho.ctx] at hready
  exact hready

/-- All moments of a connection are in bounds exactly when no length it reads is negative. -/
theorem Link.in_bounds_iff {fk : Int} (hfk : 0 ≤ fk) (hcap' : toUInt32 S + fk < 2147483648)
    {k : Link σ κ} (hk : k.Rests T (toUInt32 S)) (hready : T.Ready k.ctx)
    (es : List (κ × Nat × Bytes)) :
    (∀ m, k.Passes C S W hook es m → m.InBounds T fk) ↔
      ∀ m, k.Passes C S W hook es m → m.SizeOk T := by
  constructor
  · intro hbounds m hm
    clear hready
    induction hm with
    | @now env tie chunk es k st p l m hopened hgets =>
      obtain ⟨_, hinv⟩ := opened_inv (T := T) hC hS hcap (hk.setEnv env).good hk.keeps hopened
      apply (Wire.Gets.inv hgets hinv).sizeOk
      intro m' hm'
      exact hbounds m' (.now hopened (hgets.trans hm'))
    | @later env tie chunk es k k' m hcomplete hpasses ih =>
      exact ih ((hk.setEnv env).complete hC hS hcap hcomplete)
        (fun m₁ h₁ => hbounds m₁ (.later hcomplete h₁))
  · intro hsize m hm
    induction hm with
    | @now env tie chunk es k st p l m hopened hgets =>
      obtain ⟨ho, hinv⟩ := opened_inv (T := T) hC hS hcap (hk.setEnv env).good hk.keeps hopened
      rw [← ho.ctx] at hready
      have hready' := Wire.Gets.ready hgets hinv
        (fun m₁ h₁ => hsize m₁ (.now hopened h₁)) hready
      exact (Wire.Gets.inv hgets hinv).inBounds hready' hfk hcap'
    | @later env tie chunk es k k' m hcomplete hpasses ih =>
      have hready' : T.Ready k'.ctx := by
        apply (hk.setEnv env).ready hC hS hcap hready hcomplete
        intro st p l m₁ hopened hgets
        exact hsize m₁ (.now hopened hgets)
      exact ih ((hk.setEnv env).complete hC hS hcap hcomplete) hready'
        (fun m₁ h₁ => hsize m₁ (.later hcomplete h₁))

end
end

/-! ## The three decoders -/

open StreamContext in
def actStrs : List (Str (HeaderState ⊕ BodyState) StreamContext DubboRequest) :=
  [{ lenTag := .inl .interfaceLen, tag := .inl .interface, setLen := gotInterfaceLen,
     len := interfaceLen, set := gotInterface },
    { lenTag := .inl .methodLen, tag := .inl .method, setLen := gotMethodLen, len := methodLen,
      set := gotMethod },
    { lenTag := .inl .ptsLen, tag := .inl .pts, setLen := gotPtsLen, len := ptsLen, set := gotPts },
    { lenTag := .inr .pLen, tag := .inr .parameter, setLen := gotPLen, len := fun c => c.act.pLen,
      set := gotParameter, emit := fun c => [dubboRequestFromAct c.act] }]

/-- Until the key has been read, `body_state` is as `create_pa_context` left it. -/
def StreamContext.Keeps (c : StreamContext) : Prop := c.hasHeader = false → c.bodyState = .id

def nextStage : HeaderState ⊕ BodyState → HeaderState ⊕ BodyState
  | .inl .magic => .inl .interfaceLen
  | .inl .interfaceLen => .inl .interface
  | .inl .interface => .inl .methodLen
  | .inl .methodLen => .inl .method
  | .inl .method => .inl .ptsLen
  | .inl .ptsLen => .inl .pts
  | .inl .pts => .inr .id
  | .inl .done => .inl .done
  | .inr .id => .inr .pLen
  | .inr .pLen => .inr .parameter
  | .inr .parameter => .inr .id

theorem store_spec {f : Field (HeaderState ⊕ BodyState) StreamContext DubboRequest}
    (hf : f ∈ actWire.fields) {c : StreamContext} (hc : c.Keeps) (hs : actWire.stage c = f.tag)
    (bs : Bytes) : actWire.stage (f.store c bs) = nextStage f.tag ∧ (f.store c bs).Keeps := by
  simp only [actWire, actFields, headerFields, bodyFields, List.map_cons, List.map_nil,
    List.cons_append, List.nil_append, List.mem_cons, List.not_mem_nil, or_false] at hf hs ⊢
  rcases hf with rfl | rfl | rfl | rfl | rfl | rfl | rfl | rfl | rfl | rfl
  all_goals
    first
    | obtain ⟨hh, _⟩ := stage_eq_inl_iff.mp hs
      simp [StreamContext.Keeps, StreamContext.stage, Field.retag, headerMagic, strField, lenField,
        StreamContext.gotInterfaceLen, StreamContext.gotInterface, StreamContext.gotMethodLen,
        StreamContext.gotMethod, StreamContext.gotPtsLen, StreamContext.gotPts, nextStage, hh,
        hc hh]
    | obtain ⟨hh, _⟩ := stage_eq_inr_iff.mp hs
      simp [StreamContext.Keeps, StreamContext.stage, Field.retag, lenField, strField,
        StreamContext.gotId, StreamContext.gotPLen, StreamContext.gotParameter, nextStage, hh]

theorem eq_lenTag_of_nextStage {p : Str (HeaderState ⊕ BodyState) StreamContext DubboRequest}
    (hp : p ∈ actStrs) {t : HeaderState ⊕ BodyState} (h : nextStage t = p.tag) : t = p.lenTag := by
  simp only [actStrs, List.mem_cons, List.not_mem_nil, or_false] at hp
  rcases hp with rfl | rfl | rfl | rfl
  all_goals
    rcases t with t | t <;> cases t <;> first | rfl | cases h

def actStrings : Strings actWire where
  strs := actStrs
  keeps := StreamContext.Keeps
  keeps_store f hf c bs hc hs := (store_spec hf hc hs bs).2
  adjacent p hp := by
    simp only [actStrs, List.mem_cons, List.not_mem_nil, or_false] at hp
    rcases hp with rfl | rfl | rfl | rfl
    · exact ⟨_, [_], rfl⟩
    · exact ⟨_, [_, _, _], rfl⟩
    · exact ⟨_, [_, _, _, _, _], rfl⟩
    · exact ⟨[], [_, _, _, _, _, _, _, _], rfl⟩
  stage p hp c n hs := by
    simp only [actStrs, List.mem_cons, List.not_mem_nil, or_false] at hp
    rcases hp with rfl | rfl | rfl | rfl
    · exact stage_eq_inl_iff.mpr ⟨(stage_eq_inl_iff.mp hs).1, rfl⟩
    · exact stage_eq_inl_iff.mpr ⟨(stage_eq_inl_iff.mp hs).1, rfl⟩
    · exact stage_eq_inl_iff.mpr ⟨(stage_eq_inl_iff.mp hs).1, rfl⟩
    · exact stage_eq_inr_iff.mpr ⟨(stage_eq_inr_iff.mp hs).1, rfl⟩
  len p hp c n := by
    simp only [actStrs, List.mem_cons, List.not_mem_nil, or_false] at hp
    rcases hp with rfl | rfl | rfl | rfl <;> rfl
  only p hp f hf c bs hc hs hnext := by
    rw [(store_spec hf hc hs bs).1] at hnext
    exact eq_lenTag_of_nextStage hp hnext

def dubboStrings : Strings dubboWire where
  strs := [{ lenTag := .dataLen, tag := .result, setLen := DubboReader.gotDataLen,
             len := fun c => c.dubboResp.dataLen, set := DubboReader.gotResult,
             emit := fun c => [c.dubboResp] }]
  keeps _ := True
  keeps_store _ _ _ _ _ _ := trivial
  adjacent p hp := by
    obtain rfl := List.mem_singleton.mp hp
    exact ⟨[], [_, _], rfl⟩
  stage p hp c n _ := by
    obtain rfl := List.mem_singleton.mp hp
    rfl
  len p hp c n := by
    obtain rfl := List.mem_singleton.mp hp
    rfl
  only p hp f hf c bs _ _ hnext := by
    obtain rfl := List.mem_singleton.mp hp
    simp only [dubboWire, dubboFields, List.mem_cons, List.not_mem_nil, or_false] at hf
    rcases hf with rfl | rfl | rfl | rfl <;> first | rfl | cases hnext

def paStrings : Strings paWire where
  strs := [{ lenTag := .dataLen, tag := .result, setLen := PaReader.gotDataLen,
             len := fun c => c.aResp.dataLen, set := PaReader.gotResult,
             emit := fun c => [c.aResp] }]
  keeps _ := True
  keeps_store _ _ _ _ _ _ := trivial
  adjacent p hp := by
    obtain rfl := List.mem_singleton.mp hp
    exact ⟨[], [_], rfl⟩
  stage p hp c n _ := by
    obtain rfl := List.mem_singleton.mp hp
    rfl
  len p hp c n := by
    obtain rfl := List.mem_singleton.mp hp
    rfl
  only p hp f hf c bs _ _ hnext := by
    obtain rfl := List.mem_singleton.mp hp
    simp only [paWire, paFields, List.mem_cons, List.not_mem_nil, or_false] at hf
    rcases hf with rfl | rfl | rfl <;> first | rfl | cases hnext

section
variable {κ χ γ ξ : Type} {cap : Nat} {m : BufStore}

theorem accepted_rests (hm : m.Wf cap) (block : StreamContext) (env : κ) :
    (accepted m block env).Rests actStrings cap :=
  ⟨accepted_good hm block env, accepted_waits m block env, fun _ => rfl⟩

theorem dubboLink_rests (hm : m.Wf cap) (resp : DubboResponse) (client : DubboClient χ) :
    (dubboLink m resp client).Rests dubboStrings cap :=
  ⟨dubboLink_good hm resp client, dubboFraming.need_pos _ rfl, trivial⟩

theorem paLink_rests (hm : m.Wf cap) (resp : ActResponse) (client : PaClient γ ξ) :
    (paLink m resp client).Rests paStrings cap :=
  ⟨paLink_good hm resp client, paFraming.need_pos _ rfl, trivial⟩

/-- Every statement of the three loops stays inside the buffer, and every string fits into its
block, for as long as no length on the wire is negative and no longer. -/
theorem decoders_in_bounds_iff {S : Nat} (hS : 3 ≤ S) (hcap : toUInt32 S < 2147483647)
    (hm : m.Wf (toUInt32 S)) (dubboFetch : κ → DubboRequest → Option κ) (uvClose : κ → κ) :
    (∀ block env es,
      (∀ x, (accepted m block env).Passes (paReadCbs dubboFetch uvClose) S actWire dubboFetch es x →
        x.InBounds actStrings 0) ↔
      ∀ x, (accepted m block env).Passes (paReadCbs dubboFetch uvClose) S actWire dubboFetch es x →
        x.SizeOk actStrings) ∧
    (∀ resp (client : DubboClient χ) es,
      (∀ x, (dubboLink m resp client).Passes (dubboReadCbs χ) S dubboWire DubboClient.answer es x →
        x.InBounds dubboStrings 0) ↔
      ∀ x, (dubboLink m resp client).Passes (dubboReadCbs χ) S dubboWire DubboClient.answer es x →
        x.SizeOk dubboStrings) ∧
    ∀ resp (client : PaClient γ ξ) es,
      (∀ x, (paLink m resp client).Passes (paClientReadCbs γ ξ) S paWire PaClient.answer es x →
        x.InBounds paStrings 1) ↔
      ∀ x, (paLink m resp client).Passes (paClientReadCbs γ ξ) S paWire PaClient.answer es x →
        x.SizeOk paStrings := by
  refine ⟨?_, ?_, ?_⟩
  · intro block env es
    apply Link.in_bounds_iff paReadCbs_implements hS (by omega) (Int.le_refl 0) (by omega)
      (accepted_rests hm block env)
    intro p hp hstage
    simp only [actStrings, actStrs, List.mem_cons, List.not_mem_nil, or_false] at hp
    rcases hp with rfl | rfl | rfl | rfl <;> cases hstage
  · intro resp client es
    apply Link.in_bounds_iff (dubboReadCbs_implements χ) hS (by omega) (Int.le_refl 0) (by omega)
      (dubboLink_rests hm resp client)
    intro p hp hstage
    obtain rfl := List.mem_singleton.mp hp
    cases hstage
  · intro resp client es
    have hfk : (0 : Int) ≤ 1 := by decide
    apply Link.in_bounds_iff (paClientReadCbs_implements γ ξ) hS (by omega) hfk (by omega)
      (paLink_rests hm resp client)
    intro p hp hstage
    obtain rfl := List.mem_singleton.mp hp
    cases hstage

end

/-! ## The first bytes of a connection -/

section
variable {τ σ ω κ : Type} [DecidableEq τ]

/-- The moment after this one, by computation. -/
def Wire.next (W : Wire τ σ ω) (hook : κ → ω → Option κ) (m : Moment τ σ ω κ) :
    Option (Moment τ σ ω κ) :=
  match m.todo with
  | [] => if m.rx.more then some ⟨W.fields, m.rx⟩ else none
  | f :: fs =>
    match f.run W.stage hook m.rx with
    | .next l => some ⟨fs, l⟩
    | _ => none

/-- Whether a test lets this moment and all that follow it through. -/
def Wire.checkGets (W : Wire τ σ ω) (hook : κ → ω → Option κ) (check : Rx σ κ → Bool) :
    Nat → Moment τ σ ω κ → Bool
  | 0, _ => false
  | n + 1, m => check m.rx && (W.next hook m).all (checkGets W hook check n)

variable {W : Wire τ σ ω} {hook : κ → ω → Option κ} {m m' : Moment τ σ ω κ}

theorem Wire.Tick.next_eq (h : W.Tick hook m m') : W.next hook m = some m' := by
  cases h with
  | test hmore => simp only [Wire.next, hmore, if_true]
  | stmt hrun => simp only [Wire.next, hrun]

theorem Wire.check_of_gets {check : Rx σ κ → Bool} {n : Nat}
    (hcheck : W.checkGets hook check n m = true) (h : W.Gets hook m m') :
    check m'.rx = true := by
  induction n generalizing m with
  | zero => cases hcheck
  | succ n ih =>
    rw [Wire.checkGets, Bool.and_eq_true] at hcheck
    rcases h.cases_head with rfl | ⟨m₁, htick, hrest⟩
    · exact hcheck.1
    · have hall := hcheck.2
      rw [htick.next_eq, Option.all_some] at hall
      exact ih hall hrest

end

/-- `SizeOk` of whatever is about to be read, by computation. -/
def checkSize (l : Rx StreamContext (List DubboRequest)) : Bool :=
  actStrs.all fun p => decide (actWire.stage l.ctx = p.lenTag →
    4 ≤ l.buf.writeIdx - l.buf.readIdx → 0 ≤ bytes2int l.buf.ptr)

theorem opened_first (block : StreamContext) (bytes : Bytes) (hlen : bytes.length ≤ 65536) :
    Link.opened (paReadCbs logFetch id) 65536
      (accepted ⟨[], []⟩ block ([] : List DubboRequest)) 0 bytes =
        some (⟨[(createBuf 65536).fill 0 bytes], []⟩, 0,
          ⟨createPaContext block, (createBuf 65536).fill 0 bytes, []⟩) := by
  have hcall : allocCb intRemain 65536 0 ⟨[], []⟩ none =
      some (⟨[createBuf 65536], []⟩, 0, ⟨0, 0, 65536⟩) := rfl
  simp only [Link.opened, accepted, paReadCbs, pAllocCb, hcall]
  rw [if_pos hlen]
  rfl

/-- The magic number and an interface of one letter, in one read. -/
theorem decoders_in_bounds_iff_one_read :
    let block : StreamContext :=
      ⟨.done, true, .pLen, [], 0, [], 0, [], 0, { id := 0, pLen := 0, parameter := [] }⟩
    let passes := (accepted ⟨[], []⟩ block ([] : List DubboRequest)).Passes
      (paReadCbs logFetch id) 65536 actWire logFetch [([], 0, [0xab, 0xcd, 0, 0, 0, 1, 73])]
    (∃ x, passes x ∧ x.rx.ctx.interface = [73]) ∧ ∀ x, passes x → x.InBounds actStrings 0 := by
  intro block passes
  have hopened := opened_first block [0xab, 0xcd, 0, 0, 0, 1, 73] (by decide)
  constructor
  · let l : Rx StreamContext (List DubboRequest) :=
      ⟨createPaContext block, (createBuf 65536).fill 0 [0xab, 0xcd, 0, 0, 0, 1, 73], []⟩
    have hloop : (actWire.readLoop logFetch 3 (l.arrive 7)).any (fun
        | .done l' => decide (l'.ctx.interface = [73])
        | .crash => false) = true := by decide +kernel
    obtain ⟨_ | l', hdone, hinterface⟩ := (Option.any_eq_true _ _).mp hloop
    · obtain ⟨gs, hgets⟩ := Wire.gets_of_readLoop hdone
      exact ⟨_, .now hopened hgets, of_decide_eq_true hinterface⟩
    · cases hinterface
  · apply ((decoders_in_bounds_iff (χ := Unit) (γ := Unit) (ξ := Unit) (by decide) (by decide)
      (BufStore.wf_empty _) logFetch id).1 block [] _).mpr
    rintro x hpasses p hp ⟨_, hstage, henough⟩
    cases hpasses with
    | later _ hrest => cases hrest
    | now hopened' hgets =>
      have hl := congrArg (fun o => o.2.2) (Option.some.inj (hopened.symm.trans hopened'))
      subst hl
      have hcheck : checkSize x.rx = true := Wire.check_of_gets (n := 6) (by decide +kernel) hgets
      exact of_decide_eq_true (List.all_eq_true.mp hcheck p hp) hstage henough

/-- The magic number and a length with its top bit set: `strncpy` is to copy -1 bytes. -/
theorem interface_out_of_bounds :
    let block : StreamContext :=
      ⟨.done, true, .pLen, [], 0, [], 0, [], 0, { id := 0, pLen := 0, parameter := [] }⟩
    ∃ x, (accepted ⟨[], []⟩ block ([] : List DubboRequest)).Passes (paReadCbs logFetch id) 65536
      actWire logFetch [([], 0, [0xab, 0xcd, 0xff, 0xff, 0xff, 0xff])] x ∧
      ¬ x.InBounds actStrings 0 := by
  intro block
  let b : ByteBuf := (createBuf 65536).fill 0 [0xab, 0xcd, 0xff, 0xff, 0xff, 0xff]
  let l : Rx StreamContext (List DubboRequest) := ⟨createPaContext block, b, []⟩
  let l₁ : Rx StreamContext (List DubboRequest) :=
    ⟨(createPaContext block).gotInterfaceLen (-1), (l.arrive 6).buf.addRead 6, []⟩
  have hopened := opened_first block [0xab, 0xcd, 0xff, 0xff, 0xff, 0xff] (by decide)
  let l₀ : Rx StreamContext (List DubboRequest) :=
    ⟨headerMagic.store (createPaContext block) [], (l.arrive 6).buf.addRead 2, []⟩
  have hmagic : (headerMagic.retag .inl).run actWire.stage logFetch (l.arrive 6) = .next l₀ := rfl
  have hlen : bytes2int (b.buf.drop 2) = -1 := by decide
  have hinterfaceLen : (lenField (.inl .interfaceLen) StreamContext.gotInterfaceLen).run
      actWire.stage logFetch l₀ = .next l₁ := by
    simp only [l₁, ← hlen]
    rfl
  have hgets : actWire.Gets logFetch ⟨[], l.arrive 6⟩ ⟨actFields.drop 2, l₁⟩ :=
    .head (.test rfl) (.head (.stmt hmagic) (.head (.stmt hinterfaceLen) .refl))
  refine ⟨⟨actFields.drop 2, l₁⟩, .now hopened hgets, ?_⟩
  intro hbounds
  have hcopies : Moment.Copies actWire (⟨actFields.drop 2, l₁⟩ : Moment _ _ _ _)
      { lenTag := .inl .interfaceLen, tag := .inl .interface,
        setLen := StreamContext.gotInterfaceLen, len := StreamContext.interfaceLen,
        set := StreamContext.gotInterface } :=
    ⟨⟨_, rfl⟩, rfl, by decide⟩
  have h := (hbounds.copies _ (.head _) hcopies).1
  exact absurd h (by decide)

end PyAgent
