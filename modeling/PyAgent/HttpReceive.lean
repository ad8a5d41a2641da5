import PyAgent.Receive

/-!
# Reading HTTP

`_ca_alloc_cb` and `_ca_on_read` of ca.cc around `http_parser_execute`. A read that
brings nothing and finds nothing unread still calls the parser, which takes a call
without bytes for the end of the stream.
-/

namespace PyAgent
set_option autoImplicit false

open Streaming

/-! ## The parser -/

/-- `enum state`; all other states are in the middle of a message. -/
inductive HttpState where
  | dead | startReqOrRes | startRes | startReq | bodyIdentityEof
  | inside (state : Nat)
  deriving DecidableEq

inductive HttpErrno where
  | ok | invalidEofState
  | other (errno : Nat)
  deriving DecidableEq

/-- `rest` is the rest of the struct. -/
structure HttpParser (ρ : Type) where
  state : HttpState
  errno : HttpErrno
  rest : ρ

/-- What a call of the parser leaves and returns, and its calls of `on_body` and
`on_message_complete`. -/
structure Parsed (ρ : Type) where
  parser : HttpParser ρ
  parsed : Nat
  bodies : List Bytes := []
  messageComplete : Bool := false

/-- The state machine of `http_parser_execute`, run on one byte at least, and the rest of a parser
that `http_parser_init` has cleared. -/
structure HttpMachine (ρ : Type) where
  cleared : ρ
  run : HttpParser ρ → Bytes → Parsed ρ

namespace HttpMachine
variable {ρ : Type}

/-- The byte count is one of bytes of the call. -/
def Counts (M : HttpMachine ρ) : Prop :=
  ∀ parser data, data ≠ [] → parser.errno = .ok → (M.run parser data).parsed ≤ data.length

/-- `http_parser_init(parser, HTTP_REQUEST)` -/
def init (M : HttpMachine ρ) : HttpParser ρ := ⟨.startReq, .ok, M.cleared⟩

/-- `http_parser_execute`; `none` when `len` is a negative number that has become a `size_t`. -/
def execute (M : HttpMachine ρ) (parser : HttpParser ρ) (data : Bytes) (len : Int) :
    Option (Parsed ρ) :=
  if parser.errno ≠ .ok then some { parser := parser, parsed := 0 }
  else if len = 0 then
    match parser.state with
    | .bodyIdentityEof => some { parser := parser, parsed := 0, messageComplete := true }
    | .dead | .startReqOrRes | .startRes | .startReq => some { parser := parser, parsed := 0 }
    | .inside _ => some { parser := { parser with errno := .invalidEofState }, parsed := 1 }
  else if len < 0 then none
  else some (M.run parser data)

end HttpMachine

/-! ## The callbacks -/

structure HContext (ρ : Type) where
  parser : HttpParser ρ
  nextNewReq : Bool

section
variable {ρ κ : Type} (M : HttpMachine ρ) (onBody : κ → Bytes → κ) (uvClose : κ → κ)

def HContext.reinit (ctx : HContext ρ) : HContext ρ :=
  if ctx.nextNewReq then { parser := M.init, nextNewReq := false } else ctx

def caOnRead (nread : Int) (l : Rx (HContext ρ) κ) : Option (Exit (Rx (HContext ρ) κ)) :=
  if nread < 0 then some (.done { l with env := uvClose l.env })
  else
    let l := l.arrive nread
    let ctx := l.ctx.reinit M
    match M.execute ctx.parser l.buf.unread (l.buf.writeIdx - l.buf.readIdx) with
    | none => some .crash
    | some r => some (.done
        { ctx := { parser := r.parser, nextNewReq := ctx.nextNewReq || r.messageComplete }
          buf := l.buf.addRead r.parsed
          env := r.bodies.foldl onBody l.env })

def caReadCbs : ReadCbs (HContext ρ) κ := ⟨caAllocCb, caOnRead M onBody uvClose⟩

end

/-! ## The progress of a request -/

section
variable {ρ κ : Type} {M : HttpMachine ρ} {onBody : κ → Bytes → κ} {uvClose : κ → κ}

/-- The parser as the next call will find it. -/
def HContext.progress (M : HttpMachine ρ) (ctx : HContext ρ) : HttpParser ρ :=
  if ctx.nextNewReq then M.init else ctx.parser

theorem HContext.reinit_eq (ctx : HContext ρ) : ctx.reinit M = ⟨ctx.progress M, false⟩ := by
  obtain ⟨parser, nextNewReq⟩ := ctx
  cases nextNewReq <;> rfl

/-- Between two requests, or no longer parsing. -/
def HContext.Resting (M : HttpMachine ρ) (ctx : HContext ρ) : Prop :=
  (ctx.progress M).errno ≠ .ok ∨ (ctx.progress M).state = .dead ∨
    (ctx.progress M).state = .startReqOrRes ∨ (ctx.progress M).state = .startRes ∨
    (ctx.progress M).state = .startReq

/-- A call without bytes. -/
theorem execute_nothing (parser : HttpParser ρ) (data : Bytes) :
    (parser.errno ≠ .ok ∨ parser.state = .dead ∨ parser.state = .startReqOrRes ∨
        parser.state = .startRes ∨ parser.state = .startReq) ∧
      M.execute parser data 0 = some { parser := parser, parsed := 0 } ∨
    (parser.errno = .ok ∧ parser.state = .bodyIdentityEof) ∧
      M.execute parser data 0 =
        some { parser := parser, parsed := 0, messageComplete := true } ∨
    (parser.errno = .ok ∧ ∃ state, parser.state = .inside state) ∧
      M.execute parser data 0 =
        some { parser := { parser with errno := .invalidEofState }, parsed := 1 } := by
  unfold HttpMachine.execute
  by_cases herr : parser.errno = .ok
  · cases hstate : parser.state with
    | bodyIdentityEof => exact Or.inr (Or.inl ⟨⟨herr, rfl⟩, by simp [herr]⟩)
    | inside state => exact Or.inr (Or.inr ⟨⟨herr, state, rfl⟩, by simp [herr]⟩)
    | dead => exact Or.inl ⟨by simp, by simp [herr]⟩
    | startReqOrRes => exact Or.inl ⟨by simp, by simp [herr]⟩
    | startRes => exact Or.inl ⟨by simp, by simp [herr]⟩
    | startReq => exact Or.inl ⟨by simp, by simp [herr]⟩
  · exact Or.inl ⟨Or.inl herr, by simp [herr]⟩

/-- A call with bytes takes no more than it is given. -/
theorem execute_something (hM : M.Counts) (parser : HttpParser ρ) {data : Bytes} {len : Int}
    (hlen : len = data.length) (hne : data ≠ []) :
    ∃ r, M.execute parser data len = some r ∧ r.parsed ≤ data.length := by
  have hpos := List.length_pos_of_ne_nil hne
  unfold HttpMachine.execute
  by_cases herr : parser.errno = .ok
  · rw [if_neg (by simp [herr]), if_neg (by omega), if_neg (by omega)]
    exact ⟨_, rfl, hM parser data hne herr⟩
  · rw [if_pos herr]
    exact ⟨_, rfl, Nat.zero_le _⟩

/-- `0 <= read_idx <= write_idx <= size` after the callback, and a call that neither brings nor
finds anything has changed neither the indices nor the progress of the request. -/
structure ReadKept (M : HttpMachine ρ) (idle : Prop) (l l' : Rx (HContext ρ) κ) : Prop where
  read_nonneg : 0 ≤ l'.buf.readIdx
  read_le : l'.buf.readIdx ≤ l'.buf.writeIdx
  write_le : l'.buf.writeIdx ≤ l'.buf.size
  idle : idle → l'.buf.readIdx = l.buf.readIdx ∧ l'.buf.writeIdx = l.buf.writeIdx ∧
    l'.ctx.progress M = l.ctx.progress M

variable (onBody uvClose) in
theorem caOnRead_eq (n : Nat) (l : Rx (HContext ρ) κ) {r : Parsed ρ}
    (hr : M.execute (l.ctx.progress M) (l.arrive n).buf.unread
      ((l.arrive n).buf.writeIdx - (l.arrive n).buf.readIdx) = some r) :
    caOnRead M onBody uvClose n l = some (.done ⟨⟨r.parser, r.messageComplete⟩,
      (l.arrive n).buf.addRead r.parsed, r.bodies.foldl onBody l.env⟩) := by
  have hneg : ¬ (n : Int) < 0 := by omega
  have hctx : (l.arrive n).ctx = l.ctx := rfl
  simp only [caOnRead, if_neg hneg, hctx, HContext.reinit_eq, hr, Bool.false_or]
  rfl

variable (onBody uvClose) in
/-- A call that brings or finds bytes keeps the indices in order. -/
theorem caOnRead_bytes (hM : M.Counts) {n cap : Nat} {l : Rx (HContext ρ) κ}
    (hwf : (l.arrive n).buf.Wf cap) (hne : (l.arrive n).buf.unread ≠ []) :
    ∃ l', caOnRead M onBody uvClose n l = some (.done l') ∧ l'.buf.Wf cap := by
  obtain ⟨r, hr, hle⟩ := execute_something hM (l.ctx.progress M) hwf.unread_length.symm hne
  exact ⟨_, caOnRead_eq onBody uvClose n l hr, hwf.addRead hle⟩

variable (onBody uvClose) in
/-- A call without bytes does nothing exactly between two requests and once the parser has ended. -/
theorem caOnRead_empty_iff {cap : Nat} {l : Rx (HContext ρ) κ}
    (hwf : (l.arrive 0).buf.Wf cap) (hsame : (l.arrive 0).buf = l.buf)
    (hnil : (l.arrive 0).buf.unread = []) :
    ∃ l', caOnRead M onBody uvClose (0 : Nat) l = some (.done l') ∧
      (ReadKept M True l l' ↔ l.ctx.Resting M) ∧ (l.ctx.Resting M → l'.buf.Wf cap) := by
  have hlen : (l.arrive (0 : Nat)).buf.writeIdx - (l.arrive (0 : Nat)).buf.readIdx = 0 := by
    have hlength := hwf.unread_length
    rw [hnil, List.length_nil] at hlength
    exact hlength.symm
  have hwf' : l.buf.Wf cap := by rwa [hsame] at hwf
  have hzero : (l.arrive (0 : Nat)).buf.addRead (0 : Nat) = l.buf := by
    have hbuf : (l.arrive (0 : Nat)).buf = l.buf := hsame
    rw [hbuf, ByteBuf.addRead, Int.natCast_zero, Int.add_zero]
  rcases execute_nothing (M := M) (l.ctx.progress M) (l.arrive (0 : Nat)).buf.unread with
    ⟨hrest, hr⟩ | ⟨⟨herr, hstate⟩, hr⟩ | ⟨⟨herr, state, hstate⟩, hr⟩
  · rw [← hlen] at hr
    refine ⟨_, caOnRead_eq onBody uvClose 0 l hr, ?_, fun _ => by rw [hzero]; exact hwf'⟩
    apply iff_of_true _ hrest
    refine ⟨?_, ?_, ?_, fun _ => ⟨?_, ?_, rfl⟩⟩
    all_goals rw [hzero]
    · exact hwf'.read_nonneg
    · exact hwf'.read_le
    · exact hwf'.write_le_size
  · rw [← hlen] at hr
    have hbusy : ¬ l.ctx.Resting M := by
      unfold HContext.Resting
      simp [herr, hstate]
    refine ⟨_, caOnRead_eq onBody uvClose 0 l hr, iff_of_false ?_ hbusy, fun h => absurd h hbusy⟩
    intro hkept
    have hprogress := congrArg HttpParser.state (hkept.idle trivial).2.2
    rw [hstate] at hprogress
    cases hprogress
  · rw [← hlen] at hr
    have hbusy : ¬ l.ctx.Resting M := by
      unfold HContext.Resting
      simp [herr, hstate]
    refine ⟨_, caOnRead_eq onBody uvClose 0 l hr, iff_of_false ?_ hbusy, fun h => absurd h hbusy⟩
    intro hkept
    have hread := (hkept.idle trivial).1
    have hbuf : (l.arrive (0 : Nat)).buf = l.buf := hsame
    simp only [hbuf, ByteBuf.addRead] at hread
    omega

end

/-! ## Runs of a connection -/

section
variable {ρ κ : Type} (M : HttpMachine ρ) (onBody : κ → Bytes → κ) (uvClose : κ → κ) (S : Nat)

/-- A read that brings nothing and finds nothing unread meets a parser that is not in the middle of
a request. -/
def EmptyReadHarmless (k : Link (HContext ρ) κ) (chunk : Bytes) : Prop :=
  chunk = [] → k.unread = [] → k.ctx.Resting M

/-- What other connections may do to the buffers: the one that is held stays as it is. -/
def Link.Sees {σ κ : Type} (cap : Nat) (k : Link σ κ) (m : BufStore) : Prop :=
  m.Wf cap ∧ ∀ p, k.held = some p → m.Held p ∧ m.heap[p]? = k.store.heap[p]?

/-- The states of a connection all of whose empty reads so far have been harmless. -/
inductive HttpReached : Link (HContext ρ) κ → Prop where
  | accept {m : BufStore} {parser : HttpParser ρ} {env : κ} : m.Wf (toUInt32 S) →
      HttpReached ⟨m, none, ⟨parser, true⟩, env⟩
  | elsewhere {k : Link (HContext ρ) κ} {m : BufStore} {env : κ} : HttpReached k →
      k.Sees (toUInt32 S) m → HttpReached { k with store := m, env := env }
  | read {k k' : Link (HContext ρ) κ} {tie : Nat} {chunk : Bytes} : HttpReached k →
      EmptyReadHarmless M k chunk → k.complete (caReadCbs M onBody uvClose) S tie chunk = some k' →
      HttpReached k'

variable {M onBody uvClose S}

/-- One read completion: the callback comes back, and it keeps the law exactly when it is
harmless. -/
theorem complete_kept_iff (hM : M.Counts) (hS : 3 ≤ S) (hcap : toUInt32 S < 2147483648)
    {k : Link (HContext ρ) κ} (hk : k.Stored (toUInt32 S)) (tie : Nat) (chunk : Bytes)
    (hfits : ∀ n, k.room (caReadCbs M onBody uvClose) S tie = some n → chunk.length ≤ n) :
    ∃ m p l l', k.opened (caReadCbs M onBody uvClose) S tie chunk = some (m, p, l) ∧
      caOnRead M onBody uvClose chunk.length l = some (.done l') ∧
      k.complete (caReadCbs M onBody uvClose) S tie chunk = some (Link.closed m p l') ∧
      (ReadKept M (chunk = [] ∧ k.unread = []) l l' ↔ EmptyReadHarmless M k chunk) ∧
      (EmptyReadHarmless M k chunk → (Link.closed m p l').Stored (toUInt32 S)) := by
  have hroom : ∀ n, k.room (caReadCbs M onBody uvClose) S tie = some n →
      chunk.length ≤ n ∧ toUInt32 S + chunk.length < 2147483648 + n := by
    intro n hn
    have := hfits n hn
    exact ⟨this, by omega⟩
  have halloc : (caReadCbs M onBody uvClose).alloc = allocCb intRemain := rfl
  obtain ⟨m, p, l, hopened, ha⟩ := Link.opened_arrived hS hk halloc tie chunk hroom
  have hcomplete : ∀ l', caOnRead M onBody uvClose chunk.length l = some (.done l') →
      k.complete (caReadCbs M onBody uvClose) S tie chunk = some (Link.closed m p l') := by
    intro l' hl'
    rw [Link.complete_eq, hopened]
    simp only [Option.bind_some, caReadCbs, hl']
  by_cases hidle : chunk = [] ∧ k.unread = []
  · obtain ⟨rfl, hunread⟩ := hidle
    have hnil : (l.arrive (0 : Nat)).buf.unread = [] := by
      have h := ha.unread
      rwa [hunread] at h
    obtain ⟨l', hl', hiff, hwf'⟩ := caOnRead_empty_iff onBody uvClose ha.wf (ha.same rfl) hnil
    rw [ha.ctx] at hiff hwf'
    refine ⟨m, p, l, l', hopened, hl', hcomplete l' hl', ?_, ?_⟩
    · have hharmless : EmptyReadHarmless M k [] ↔ k.ctx.Resting M :=
        ⟨fun h => h rfl hunread, fun h _ _ => h⟩
      rw [hharmless, ← hiff]
      constructor
      · exact fun h => ⟨h.read_nonneg, h.read_le, h.write_le, fun _ => h.idle ⟨rfl, hunread⟩⟩
      · exact fun h => ⟨h.read_nonneg, h.read_le, h.write_le, fun _ => h.idle trivial⟩
    · exact fun h => (ha.closes l' (hwf' (h rfl hunread))).1
  · have hne : (l.arrive chunk.length).buf.unread ≠ [] := by
      rw [ha.unread]
      intro hnil
      obtain ⟨hunread, hchunk⟩ := List.append_eq_nil_iff.mp hnil
      exact hidle ⟨hchunk, hunread⟩
    obtain ⟨l', hl', hwf'⟩ := caOnRead_bytes onBody uvClose hM ha.wf hne
    refine ⟨m, p, l, l', hopened, hl', hcomplete l' hl', ?_, fun _ => (ha.closes l' hwf').1⟩
    apply iff_of_true
    · exact ⟨hwf'.read_nonneg, hwf'.read_le, hwf'.write_le_size, fun h => absurd h hidle⟩
    · exact fun hchunk hunread => absurd ⟨hchunk, hunread⟩ hidle

theorem stored_of_reached (hM : M.Counts) (hS : 3 ≤ S) (hcap : toUInt32 S < 2147483648)
    {k : Link (HContext ρ) κ} (hk : HttpReached M onBody uvClose S k) : k.Stored (toUInt32 S) := by
  induction hk with
  | accept hm => exact ⟨hm, fun _ h => nomatch h⟩
  | elsewhere _ hsees _ => exact ⟨hsees.1, fun p hp => (hsees.2 p hp).1⟩
  | @read k k' tie chunk _ hharmless hcomplete ih =>
    have hfits : ∀ n, k.room (caReadCbs M onBody uvClose) S tie = some n → chunk.length ≤ n :=
      fun n hn => Link.fits_of_complete _ S hcomplete hn
    obtain ⟨m, p, l, l', _, _, hclosed, _, hstored⟩ :=
      complete_kept_iff hM hS hcap ih tie chunk hfits
    obtain rfl := Option.some.inj (hclosed.symm.trans hcomplete)
    exact hstored hharmless

/-- In every run whose empty reads have been harmless so far, every read completion comes back, and
it keeps the indices in order and the progress of the request exactly when it is harmless too. -/
theorem receive_robust_iff (hM : M.Counts) (hS : 3 ≤ S) (hcap : toUInt32 S < 2147483648)
    {k : Link (HContext ρ) κ} (hk : HttpReached M onBody uvClose S k) (tie : Nat) (chunk : Bytes)
    (hfits : ∀ n, k.room (caReadCbs M onBody uvClose) S tie = some n → chunk.length ≤ n) :
    ∃ m p l l', k.opened (caReadCbs M onBody uvClose) S tie chunk = some (m, p, l) ∧
      caOnRead M onBody uvClose chunk.length l = some (.done l') ∧
      k.complete (caReadCbs M onBody uvClose) S tie chunk = some (Link.closed m p l') ∧
      (ReadKept M (chunk = [] ∧ k.unread = []) l l' ↔ EmptyReadHarmless M k chunk) := by
  obtain ⟨m, p, l, l', hopened, hread, hcomplete, hiff, _⟩ :=
    complete_kept_iff hM hS hcap (stored_of_reached hM hS hcap hk) tie chunk hfits
  exact ⟨m, p, l, l', hopened, hread, hcomplete, hiff⟩

end

/-! ## A request in two pieces -/

/-- A parser of a request's head, as far as the samples go: it takes all bytes and is then in
`s_req_method`. -/
def headMachine : HttpMachine Unit where
  cleared := ()
  run parser data := { parser := { parser with state := .inside 19 }, parsed := data.length }

theorem headMachine_counts : headMachine.Counts := fun _ data _ _ => Nat.le_refl data.length

/-- A parser that takes a line for a request. -/
def lineMachine : HttpMachine Unit where
  cleared := ()
  run parser data :=
    if data.getLast? = some 10 then
      { parser := { parser with state := .startReq }, parsed := data.length,
        messageComplete := true }
    else { parser := { parser with state := .inside 19 }, parsed := data.length }

theorem lineMachine_counts : lineMachine.Counts := by
  intro parser data _ _
  simp only [lineMachine]
  split <;> exact Nat.le_refl data.length

def freshLink : Link (HContext Unit) Unit := ⟨⟨[], []⟩, none, ⟨⟨.dead, .ok, ()⟩, true⟩, ()⟩

theorem freshLink_room (tie : Nat) :
    freshLink.room (caReadCbs headMachine (fun _ _ => ()) id) 65536 tie = some 65536 := by
  have hempty := allocCb_empty intRemain (S := 65536) (by omega) tie
  simp only [Link.room, freshLink, caReadCbs, caAllocCb, hempty, Option.map_some]
  rfl

/-- The first read of a connection, and an empty one between two requests. -/
theorem receive_robust_first_read :
    (∃ m p l l',
      freshLink.opened (caReadCbs headMachine (fun _ _ => ()) id) 65536 0 (ascii "PO") =
          some (m, p, l) ∧
        caOnRead headMachine (fun _ _ => ()) id 2 l = some (.done l') ∧
        ReadKept headMachine False l l') ∧
    ∃ k m p l l',
      freshLink.complete (caReadCbs lineMachine (fun _ _ => ()) id) 65536 0 (ascii "PO\n") =
          some k ∧
        k.opened (caReadCbs lineMachine (fun _ _ => ()) id) 65536 0 [] = some (m, p, l) ∧
        caOnRead lineMachine (fun _ _ => ()) id 0 l = some (.done l') ∧
        ReadKept lineMachine True l l' := by
  have hwf : (⟨[], []⟩ : BufStore).Wf (toUInt32 65536) := BufStore.wf_empty _
  have hfits : ∀ n, freshLink.room (caReadCbs headMachine (fun _ _ => ()) id) 65536 0 = some n →
      (ascii "PO").length ≤ n := by
    intro n hn
    rw [freshLink_room] at hn
    cases hn
    decide
  have hS : 3 ≤ 65536 := by decide
  constructor
  · obtain ⟨m, p, l, l', hopened, hread, _, hiff⟩ := receive_robust_iff headMachine_counts hS
      (by decide) (HttpReached.accept hwf) 0 (ascii "PO") hfits
    have hkept := hiff.mpr fun hchunk => absurd hchunk (by decide)
    exact ⟨m, p, l, l', hopened, hread,
      hkept.read_nonneg, hkept.read_le, hkept.write_le, False.elim⟩
  · obtain ⟨k, hk, hunread, hrest⟩ : ∃ k,
        freshLink.complete (caReadCbs lineMachine (fun _ _ => ()) id) 65536 0 (ascii "PO\n") =
          some k ∧ k.unread = [] ∧ k.ctx.Resting lineMachine :=
      ⟨_, rfl, rfl, Or.inr (Or.inr (Or.inr (Or.inr rfl)))⟩
    have hfresh : HttpReached lineMachine (fun _ _ => ()) id 65536 freshLink := .accept hwf
    have hnext := hfresh.read (fun hchunk => absurd hchunk (by decide)) hk
    obtain ⟨m, p, l, l', hopened, hread, _, hiff⟩ := receive_robust_iff lineMachine_counts hS
      (by decide) hnext 0 [] (fun n _ => Nat.zero_le n)
    have hkept := hiff.mpr fun _ _ => hrest
    exact ⟨k, m, p, l, l', hk, hopened, hread,
      hkept.read_nonneg, hkept.read_le, hkept.write_le, fun _ => hkept.idle ⟨rfl, hunread⟩⟩

/-- An empty read after the first two bytes of a request: `read_idx` passes `write_idx`. -/
theorem receive_empty_read : ∃ k m p l l',
    freshLink.complete (caReadCbs headMachine (fun _ _ => ()) id) 65536 0 (ascii "PO") = some k ∧
      k.unread = [] ∧
      k.opened (caReadCbs headMachine (fun _ _ => ()) id) 65536 0 [] = some (m, p, l) ∧
      caOnRead headMachine (fun _ _ => ()) id 0 l = some (.done l') ∧
      l'.buf.writeIdx < l'.buf.readIdx ∧ ¬ ReadKept headMachine True l l' := by
  refine ⟨_, _, _, _, _, rfl, rfl, rfl, rfl, by decide, ?_⟩
  intro hkept
  exact absurd hkept.read_le (by decide)

end PyAgent
