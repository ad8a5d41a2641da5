import PyAgent.ByteBuf
import PyAgent.Streaming.DecoderLoop

/-!
# Read callbacks

All read callbacks of the agents are one loop over `if` statements, each of which
reads one field of the wire format when the state says so. `Field` is such a
statement and `Wire` a format, the list of its fields; a `Wire` is a resumable
decoder, which the loop implements. `Link` is one connection: an alloc callback
and a read callback in turn.
-/

namespace PyAgent
set_option autoImplicit false

open Streaming

/-- What a read callback works on: the fields of its context, the buffer the context holds and
everything its callbacks can reach. -/
structure Rx (σ κ : Type) where
  ctx : σ
  buf : ByteBuf
  env : κ

def Rx.view (σ κ : Type) : View (Rx σ κ) σ UInt8 κ := ⟨Rx.ctx, fun l => l.buf.unread, Rx.env⟩

def Rx.more {σ κ : Type} (l : Rx σ κ) : Bool := l.buf.readIdx < l.buf.writeIdx

theorem Rx.more_iff {σ κ : Type} {l : Rx σ κ} {cap : Nat} (hl : l.buf.Wf cap) :
    l.more = true ↔ l.buf.unread ≠ [] := by
  have := hl.unread_eq_nil_iff
  simp only [Rx.more, decide_eq_true_eq, ne_eq, this, Decidable.not_not]

/-- One statement of a read loop: in state `tag` it waits for `need` bytes, skips nothing unless it
`accepts` them, stores what it read and calls back with `emit`. Only the first `need` bytes
matter. -/
structure Field (τ σ ω : Type) where
  tag : τ
  need : σ → Int
  accepts : Bytes → Bool := fun _ => true
  store : σ → Bytes → σ
  emit : σ → List ω := fun _ => []
  accepts_take : ∀ s bs, accepts (bs.take (need s).toNat) = accepts bs := by intros; rfl
  store_take : ∀ s bs, store s (bs.take (need s).toNat) = store s bs

section
variable {τ τ' σ ω κ : Type} [DecidableEq τ] [DecidableEq τ']

/-- `if(stage == tag) { if(write_idx - read_idx >= need) {...} else break; }` -/
def Field.run (stage : σ → τ) (hook : κ → ω → Option κ) (f : Field τ σ ω) (l : Rx σ κ) :
    Flow (Rx σ κ) :=
  if stage l.ctx = f.tag then
    if f.need l.ctx ≤ l.buf.writeIdx - l.buf.readIdx then
      -- a negative length reaches strncpy as a size_t beyond every block
      if f.need l.ctx < 0 then .fault
      else if f.accepts l.buf.ptr then
        let ctx := f.store l.ctx l.buf.ptr
        match (f.emit ctx).foldlM hook l.env with
        | none => .fault
        | some env => .next ⟨ctx, l.buf.addRead (f.need l.ctx), env⟩
      else .next l
    else .leave l
  else .next l

/-- A statement either passes the state on or reads its field. -/
theorem Field.run_cases {stage : σ → τ} {hook : κ → ω → Option κ} {f : Field τ σ ω}
    {l l' : Rx σ κ} (h : f.run stage hook l = .next l') :
    l' = l ∨ (stage l.ctx = f.tag ∧ 0 ≤ f.need l.ctx ∧
      f.need l.ctx ≤ l.buf.writeIdx - l.buf.readIdx ∧ l'.ctx = f.store l.ctx l.buf.ptr) := by
  unfold Field.run at h
  split at h
  · rename_i hstage
    split at h
    · rename_i henough
      split at h
      · cases h
      · rename_i hneg
        split at h
        · cases hemit : (f.emit (f.store l.ctx l.buf.ptr)).foldlM hook l.env with
          | none => simp [hemit] at h
          | some env =>
            simp only [hemit] at h
            have hctx := congrArg Rx.ctx (Flow.next.inj h).symm
            exact Or.inr ⟨hstage, by omega, henough, hctx⟩
        · exact Or.inl (Flow.next.inj h).symm
    · cases h
  · exact Or.inl (Flow.next.inj h).symm

theorem Field.run_next {stage : σ → τ} {hook : κ → ω → Option κ} {f : Field τ σ ω} {l l' : Rx σ κ}
    (h : f.run stage hook l = .next l') : l'.ctx = l.ctx ∨ l'.ctx = f.store l.ctx l.buf.ptr := by
  rcases Field.run_cases h with rfl | ⟨_, _, _, hctx⟩
  · exact Or.inl rfl
  · exact Or.inr hctx

theorem Field.run_leave {stage : σ → τ} {hook : κ → ω → Option κ} {f : Field τ σ ω}
    {l l' : Rx σ κ} (h : f.run stage hook l = .leave l') : l' = l := by
  unfold Field.run at h
  split at h
  · split at h
    · split at h
      · cases h
      · split at h
        · cases hemit : (f.emit (f.store l.ctx l.buf.ptr)).foldlM hook l.env <;>
            simp [hemit] at h
        · cases h
    · exact (Flow.leave.inj h).symm
  · cases h

def Field.retag (g : τ → τ') (f : Field τ σ ω) : Field τ' σ ω :=
  { f with tag := g f.tag }

def activeField (stage : σ → τ) (fields : List (Field τ σ ω)) (s : σ) : Option (Field τ σ ω) :=
  fields.find? fun f => stage s = f.tag

def fieldDecoder (stage : σ → τ) (fields : List (Field τ σ ω)) : Decoder σ UInt8 ω where
  need s := (activeField stage fields s).elim 1 fun f => (f.need s).toNat
  take s bs := (activeField stage fields s).elim .refused fun f =>
    if f.need s < 0 then .died
    else if f.accepts bs then .took (f.store s bs) (f.emit (f.store s bs))
    else .refused

def Field.stmt (stage : σ → τ) (hook : κ → ω → Option κ) (f : Field τ σ ω) : Stmt (Rx σ κ) σ :=
  ⟨fun s => stage s = f.tag, f.run stage hook⟩

theorem activeField_of_mem {stage : σ → τ} {fields : List (Field τ σ ω)}
    (hnodup : (fields.map Field.tag).Nodup) {f : Field τ σ ω} (hf : f ∈ fields) {s : σ}
    (hs : stage s = f.tag) : activeField stage fields s = some f := by
  induction fields with
  | nil => simp at hf
  | cons g fields ih =>
    rw [List.map_cons, List.nodup_cons] at hnodup
    rw [activeField, List.find?_cons]
    by_cases hg : stage s = g.tag
    · rcases List.mem_cons.mp hf with rfl | hf
      · simp [hs]
      · have hmem : f.tag ∈ fields.map Field.tag := List.mem_map_of_mem hf
        rw [← hs, hg] at hmem
        exact absurd hmem hnodup.1
    · rcases List.mem_cons.mp hf with rfl | hf
      · exact absurd hs hg
      · simp only [hg, decide_false]
        exact ih hnodup.2 hf

def Field.Fixed (f : Field τ σ ω) : Prop := ∀ s, 0 < f.need s

/-- Each of the listed fields is followed by one behind it in the list or by a fixed one. -/
def Flows (stage : σ → τ) (fields : List (Field τ σ ω)) : List (Field τ σ ω) → Prop
  | [] => True
  | f :: fs =>
    (∀ s bs, stage s = f.tag → stage (f.store s bs) ∈ fs.map Field.tag ∨
      ∃ g ∈ fields, g.Fixed ∧ stage (f.store s bs) = g.tag) ∧ Flows stage fields fs

structure Wire (τ σ ω : Type) [DecidableEq τ] where
  stage : σ → τ
  fields : List (Field τ σ ω)
  nodup : (fields.map Field.tag).Nodup
  flows : Flows stage fields fields
  plain : ∀ f ∈ fields, f.Fixed ∨ ∀ bs, f.accepts bs = true

namespace Wire
variable (W : Wire τ σ ω) (hook : κ → ω → Option κ)

def decoder : Decoder σ UInt8 ω := fieldDecoder W.stage W.fields

def ok (s : σ) : Prop := ∃ f ∈ W.fields, W.stage s = f.tag

def stmts : List (Stmt (Rx σ κ) σ) := W.fields.map (Field.stmt W.stage hook)

def readLoop (n : Nat) (l : Rx σ κ) : Option (Exit (Rx σ κ)) :=
  loop Rx.more (body (W.stmts hook)) n l

variable {W hook} {cap : Nat} {f : Field τ σ ω} {s : σ}

theorem need_eq (hf : f ∈ W.fields) (hs : W.stage s = f.tag) :
    W.decoder.need s = (f.need s).toNat := by
  simp only [decoder, fieldDecoder, activeField_of_mem W.nodup hf hs, Option.elim_some]

theorem take_eq (hf : f ∈ W.fields) (hs : W.stage s = f.tag) (bs : Bytes) :
    W.decoder.take s bs = if f.need s < 0 then .died
      else if f.accepts bs then .took (f.store s bs) (f.emit (f.store s bs)) else .refused := by
  simp only [decoder, fieldDecoder, activeField_of_mem W.nodup hf hs, Option.elim_some]

theorem active_unique {g : Field τ σ ω} (hf : f ∈ W.fields) (hs : W.stage s = f.tag)
    (hg : g ∈ W.fields) (hs' : W.stage s = g.tag) : f = g := by
  have hactive := activeField_of_mem W.nodup hf hs
  rw [activeField_of_mem W.nodup hg hs'] at hactive
  exact (Option.some.inj hactive).symm

theorem exists_active {g : Field τ σ ω} (h : activeField W.stage W.fields s = some g) :
    g ∈ W.fields ∧ W.stage s = g.tag :=
  ⟨List.mem_of_find?_eq_some h, by simpa using List.find?_some h⟩

theorem exists_took {bs : Bytes} {s' : σ} {os : List ω}
    (h : W.decoder.take s bs = .took s' os) :
    ∃ f ∈ W.fields, W.stage s = f.tag ∧ 0 ≤ f.need s ∧ f.accepts bs = true ∧
      s' = f.store s bs ∧ os = f.emit s' := by
  cases hactive : activeField W.stage W.fields s with
  | none => simp [decoder, fieldDecoder, hactive] at h
  | some f =>
    obtain ⟨hf, hs⟩ := exists_active hactive
    rw [take_eq hf hs] at h
    split at h
    · cases h
    · rename_i hneg
      split at h
      · rename_i ha
        obtain ⟨rfl, rfl⟩ := Verdict.took.inj h
        exact ⟨f, hf, hs, by omega, ha, rfl, rfl⟩
      · cases h

omit [DecidableEq τ] in
theorem flows_suffix {stage : σ → τ} {fields fs gs : List (Field τ σ ω)}
    (h : Flows stage fields fs) (hsuf : gs <:+ fs) : Flows stage fields gs := by
  induction fs with
  | nil => rwa [List.suffix_nil.mp hsuf]
  | cons f fs ih =>
    rcases List.suffix_cons_iff.mp hsuf with rfl | hsuf
    · exact h
    · exact ih h.2 hsuf

def rest (s : σ) : List (Field τ σ ω) := W.fields.dropWhile fun f => W.stage s ≠ f.tag

theorem rest_suffix (s : σ) : W.rest s <:+ W.fields := List.dropWhile_suffix _

variable (W) in
theorem rest_eq {fs : List (Field τ σ ω)} (hsuf : f :: fs <:+ W.fields) (hs : W.stage s = f.tag) :
    W.rest s = f :: fs := by
  obtain ⟨gs, hgs⟩ := hsuf
  have hbefore : ∀ g ∈ gs, W.stage s ≠ g.tag := by
    intro g hg heq
    have hnodup := W.nodup
    rw [← hgs, List.map_append, List.nodup_append] at hnodup
    exact hnodup.2.2 g.tag (List.mem_map_of_mem hg) f.tag (by simp) (heq.symm.trans hs)
  rw [rest, ← hgs, List.dropWhile_append_of_pos (by simpa using hbefore)]
  simp [hs]

theorem exists_rest (hf : f ∈ W.fields) (hs : W.stage s = f.tag) : ∃ fs, W.rest s = f :: fs := by
  obtain ⟨gs, fs, hgs⟩ := List.append_of_mem hf
  exact ⟨fs, W.rest_eq ⟨gs, hgs.symm⟩ hs⟩

theorem exists_next (hf : f ∈ W.fields) (hs : W.stage s = f.tag) (bs : Bytes) :
    ∃ g ∈ W.fields, W.stage (f.store s bs) = g.tag ∧ (g ∈ (W.rest s).tail ∨ g.Fixed) := by
  obtain ⟨fs, hfs⟩ := exists_rest hf hs
  have hsuf := W.rest_suffix s
  rw [hfs] at hsuf ⊢
  rcases (flows_suffix W.flows hsuf).1 s bs hs with hlater | ⟨g, hg, hfixed, hnext⟩
  · obtain ⟨g, hg, hnext⟩ := List.mem_map.mp hlater
    exact ⟨g, hsuf.subset (List.mem_cons_of_mem f hg), hnext.symm, Or.inl hg⟩
  · exact ⟨g, hg, hnext, Or.inr hfixed⟩

theorem ok_store (hf : f ∈ W.fields) (hs : W.stage s = f.tag) (bs : Bytes) :
    W.ok (f.store s bs) := by
  obtain ⟨g, hg, hnext, _⟩ := exists_next hf hs bs
  exact ⟨g, hg, hnext⟩

theorem rest_length_lt (hf : f ∈ W.fields) (hs : W.stage s = f.tag) {g : Field τ σ ω} {s' : σ}
    (hg : g ∈ (W.rest s).tail) (hs' : W.stage s' = g.tag) :
    (W.rest s').length < (W.rest s).length := by
  obtain ⟨fs, hfs⟩ := exists_rest hf hs
  rw [hfs, List.tail_cons] at hg
  obtain ⟨as, bs, rfl⟩ := List.append_of_mem hg
  have hsuf : g :: bs <:+ W.fields := by
    refine List.IsSuffix.trans ⟨f :: as, ?_⟩ (W.rest_suffix s)
    rw [hfs]
    simp
  rw [W.rest_eq hsuf hs', hfs]
  simp only [List.length_cons, List.length_append]
  omega

/-- Fields of length zero follow each other down the list only. -/
def measure (W : Wire τ σ ω) : W.decoder.Measure where
  slack s := if W.decoder.need s = 0 then (W.rest s).length else 0
  bound := W.fields.length
  slack_le s := by
    split
    · exact (W.rest_suffix s).length_le
    · exact Nat.zero_le _
  falls s hn := by
    cases hactive : activeField W.stage W.fields s with
    | none => simp [decoder, fieldDecoder, hactive] at hn
    | some f =>
      obtain ⟨hf, hs⟩ := exists_active hactive
      have hn' := hn
      rw [need_eq hf hs] at hn'
      rw [take_eq hf hs]
      by_cases hneg : f.need s < 0
      · exact Or.inl (if_pos hneg)
      · have hfix : ¬ f.Fixed := by
          intro hfix
          have := hfix s
          omega
        refine Or.inr ⟨f.store s [], f.emit (f.store s []), ?_, ?_⟩
        · rw [if_neg hneg, if_pos ((W.plain f hf).resolve_left hfix [])]
        · obtain ⟨g, hg, hnext, hlater⟩ := exists_next hf hs []
          obtain ⟨fs, hfs⟩ := exists_rest hf hs
          rw [if_pos hn]
          split
          · rename_i hzero
            rcases hlater with hlater | hfixed
            · exact rest_length_lt hf hs hlater hnext
            · rw [need_eq hg hnext] at hzero
              have := hfixed (f.store s [])
              omega
          · rw [hfs, List.length_cons]
            exact Nat.succ_pos _

theorem ordered (W : Wire τ σ ω) :
    Ordered W.decoder (W.fields.map fun f s => W.stage s = f.tag) := by
  have h : ∀ fs, fs <:+ W.fields → Ordered W.decoder (fs.map fun f s => W.stage s = f.tag) := by
    intro fs hsuf
    induction fs with
    | nil => trivial
    | cons f fs ih =>
      have hf : f ∈ W.fields := hsuf.subset List.mem_cons_self
      refine ⟨?_, ih ((List.suffix_cons f fs).trans hsuf)⟩
      intro s vs s' os hs ht hn
      obtain ⟨f', hf', hs', _, _, rfl, _⟩ := exists_took ht
      obtain rfl : f = f' := active_unique hf hs hf' hs'
      obtain ⟨g, hg, hnext, hlater⟩ := exists_next hf hs vs
      rw [W.rest_eq hsuf hs, List.tail_cons] at hlater
      rcases hlater with hlater | hfixed
      · exact ⟨_, List.mem_map_of_mem hlater, hnext⟩
      · rw [need_eq hg hnext] at hn
        have := hfixed (f.store s vs)
        omega
  exact h W.fields (List.suffix_refl _)

theorem field_run (hf : f ∈ W.fields) (hs : W.stage s = f.tag) (bs : Bytes)
    (hn : f.need s = bs.length) (ha : f.accepts bs = true) :
    W.decoder.Run s bs (f.emit (f.store s bs)) bs.length (f.store s bs) := by
  refine .field (by rw [need_eq hf hs]; omega) ?_
  rw [take_eq hf hs, if_neg (by omega), if_pos ha]

theorem field_meets (hf : f ∈ W.fields) {l : Rx σ κ} (hwf : l.buf.Wf cap)
    (hs : W.stage l.ctx = f.tag) :
    Meets W.decoder hook (Rx.view σ κ) (fun l => l.buf.Wf cap ∧ W.ok l.ctx) l
      (f.run W.stage hook l) := by
  have hlen := hwf.unread_length
  have hneed : W.decoder.need ((Rx.view σ κ).state l) = (f.need l.ctx).toNat := need_eq hf hs
  have htake := take_eq hf hs (l.buf.unread.take (f.need l.ctx).toNat)
  rw [Field.run, if_pos hs]
  by_cases henough : f.need l.ctx ≤ l.buf.writeIdx - l.buf.readIdx
  · have hle : (f.need l.ctx).toNat ≤ l.buf.unread.length := by omega
    have hptr := hwf.ptr_take hle
    have hstore : f.store l.ctx (l.buf.unread.take (f.need l.ctx).toNat) =
        f.store l.ctx l.buf.ptr := by
      rw [← hptr, f.store_take]
    have haccepts : f.accepts (l.buf.unread.take (f.need l.ctx).toNat) =
        f.accepts l.buf.ptr := by
      rw [← hptr, f.accepts_take]
    have hle' : W.decoder.need ((Rx.view σ κ).state l) ≤ ((Rx.view σ κ).unread l).length := by
      rw [hneed]
      exact hle
    rw [hstore, haccepts] at htake
    rw [if_pos henough]
    by_cases hneg : f.need l.ctx < 0
    · rw [if_pos hneg]
      refine .crash ⟨hle', .inl ?_⟩
      rw [if_pos hneg] at htake
      rw [hneed]
      exact htake
    · rw [if_neg hneg] at htake ⊢
      by_cases ha : f.accepts l.buf.ptr = true
      · rw [if_pos ha] at htake ⊢
        cases hemit : (f.emit (f.store l.ctx l.buf.ptr)).foldlM hook l.env with
        | none =>
          simp only [hemit]
          refine .crash ⟨hle', .inr ⟨f.store l.ctx l.buf.ptr, _, ?_, hemit⟩⟩
          rw [hneed]
          exact htake
        | some env =>
          simp only [hemit]
          have htook := htake
          rw [← hneed] at htook
          refine .step hle' htook ?_ hemit ⟨?_, ?_⟩
          · have hcast : ((f.need l.ctx).toNat : Int) = f.need l.ctx := by omega
            rw [hneed, ← hcast]
            exact hwf.unread_addRead _
          · have hcast : ((f.need l.ctx).toNat : Int) = f.need l.ctx := by omega
            rw [← hcast]
            exact hwf.addRead hle
          · exact ok_store hf hs _
      · rw [if_neg ha] at htake ⊢
        refine .refuse ⟨hle', ?_⟩
        rw [hneed]
        exact htake
  · rw [if_neg henough]
    have hshort : l.buf.unread.length < (f.need l.ctx).toNat := by omega
    refine .wait ?_
    unfold Decoder.Waits
    rw [hneed]
    exact hshort

theorem implements (W : Wire τ σ ω) (hook : κ → ω → Option κ) (cap : Nat) :
    Implements W.decoder hook (Rx.view σ κ) (fun l => l.buf.Wf cap ∧ W.ok l.ctx) Rx.more
      (W.stmts hook) where
  test l hl := Rx.more_iff hl.1
  idle b hb l hl hoff := by
    obtain ⟨f, _, rfl⟩ := List.mem_map.mp hb
    exact if_neg hoff
  meets b hb l hl hon := by
    obtain ⟨f, hf, rfl⟩ := List.mem_map.mp hb
    exact field_meets hf hl.1 hon
  covers l hl := by
    obtain ⟨f, hf, hs⟩ := hl.2
    exact ⟨_, List.mem_map_of_mem hf, hs⟩
  ordered := by
    rw [stmts, List.map_map]
    exact ordered W

theorem ok_of_steps {s' : σ} {us us' : Bytes} {os : List ω} (h : W.decoder.Steps s us os s' us')
    (hs : W.ok s) : W.ok s' := by
  induction h with
  | refl => exact hs
  | head _ ht _ ih =>
    obtain ⟨f, hf, hstage, _, _, rfl, _⟩ := exists_took ht
    exact ih (ok_store hf hstage _)

theorem refuses_iff (hs : W.ok s) (us : Bytes) : W.decoder.Refuses s us ↔
    ∃ f ∈ W.fields, W.stage s = f.tag ∧ 0 ≤ f.need s ∧ f.need s ≤ us.length ∧
      f.accepts us = false := by
  obtain ⟨f, hf, hstage⟩ := hs
  have haccepts := f.accepts_take s us
  unfold Decoder.Refuses
  rw [need_eq hf hstage, take_eq hf hstage, haccepts]
  constructor
  · intro h
    obtain ⟨hn, ht⟩ := h
    split at ht
    · cases ht
    · split at ht
      · cases ht
      · exact ⟨f, hf, hstage, by omega, by omega, Bool.eq_false_iff.mpr ‹_›⟩
  · intro h
    obtain ⟨g, hg, hstage', h0, hn, ha⟩ := h
    obtain rfl : f = g := active_unique hf hstage hg hstage'
    exact ⟨by omega, by simp [ha, Int.not_lt.mpr h0]⟩

theorem body_idle {l : Rx σ κ} (hl : ¬ W.ok l.ctx) : body (W.stmts hook) l = .next l := by
  have h : ∀ fs ⊆ W.fields, body (fs.map (Field.stmt W.stage hook)) l = .next l := by
    intro fs hfs
    induction fs with
    | nil => rfl
    | cons f fs ih =>
      have hoff : f.run W.stage hook l = .next l := by
        apply if_neg
        intro hstage
        exact hl ⟨f, hfs List.mem_cons_self, hstage⟩
      have hrest := ih fun g hg => hfs (List.mem_cons_of_mem f hg)
      rw [← hrest]
      exact seq_cons_next hoff
  exact h W.fields (List.Subset.refl _)

theorem stops_idle_iff {l : Rx σ κ} (hwf : l.buf.Wf cap) (hl : ¬ W.ok l.ctx) :
    Stops Rx.more (body (W.stmts hook)) l ↔ l.buf.unread = [] := by
  constructor
  · intro hstops
    by_contra hne
    apply not_stops_of_trap (fun m => m = l) ?_ rfl hstops
    intro m hl
    subst hl
    exact ⟨(Rx.more_iff hwf).mpr hne, m, body_idle hl, rfl⟩
  · intro hnil
    refine ⟨1, _, loop_exit ?_ 0⟩
    rw [← Bool.not_eq_true, Rx.more_iff hwf]
    exact not_not_intro hnil

/-- In every other state it goes on forever exactly when it comes to bytes that a field refuses. -/
theorem stops_iff {l : Rx σ κ} (hwf : l.buf.Wf cap) (hl : W.ok l.ctx) :
    Stops Rx.more (body (W.stmts hook)) l ↔ ¬ ∃ os s us k,
      W.decoder.Steps l.ctx l.buf.unread os s us ∧ os.foldlM hook l.env = some k ∧
        ∃ f ∈ W.fields, W.stage s = f.tag ∧ 0 ≤ f.need s ∧ f.need s ≤ us.length ∧
          f.accepts us = false := by
  rw [(W.implements hook cap).stops_iff W.measure ⟨hwf, hl⟩]
  apply not_congr
  constructor
  · intro h
    obtain ⟨s, us, k, ⟨os, hs, hk⟩, hr⟩ := h
    exact ⟨os, s, us, k, hs, hk, (refuses_iff (ok_of_steps hs hl) us).mp hr⟩
  · intro h
    obtain ⟨os, s, us, k, hs, hk, hr⟩ := h
    exact ⟨s, us, k, ⟨os, hs, hk⟩, (refuses_iff (ok_of_steps hs hl) us).mpr hr⟩

end Wire

/-! ## Kinds of fields -/

def lenField (tag : τ) (set : σ → Int → σ) : Field τ σ ω where
  tag := tag
  need _ := 4
  store c bs := set c (bytes2int bs)
  store_take c bs := by rw [bytes2int_take bs (by decide)]

def strField (tag : τ) (len : σ → Int) (set : σ → Bytes → σ) (emit : σ → List ω := fun _ => []) :
    Field τ σ ω where
  tag := tag
  need := len
  store c bs := set c (strncpy bs (len c).toNat)
  emit := emit
  store_take c bs := by rw [strncpy_take bs (Nat.le_refl _)]

section
variable {W : Wire τ σ ω} {tag : τ} {c : σ}

theorem lenField_run (set : σ → Int → σ) (hf : lenField tag set ∈ W.fields)
    (hs : W.stage c = tag) {n : Int} (hn : IsInt32 n) :
    W.decoder.Run c (writeInt n) [] 4 (set c n) := by
  have h := Wire.field_run hf hs (writeInt n) rfl rfl
  simp only [lenField, bytes2int_writeInt hn] at h
  exact h

theorem strField_run {len : σ → Int} {set : σ → Bytes → σ} {emit : σ → List ω}
    (hf : strField tag len set emit ∈ W.fields) (hs : W.stage c = tag) (src : Bytes)
    (hlen : len c = src.length) :
    W.decoder.Run c src (emit (set c (nulPadded src))) src.length (set c (nulPadded src)) := by
  have h := Wire.field_run hf hs src hlen rfl
  simp only [strField, hlen, Int.toNat_natCast] at h
  exact h

theorem sized_run {tag' : τ} (setLen : σ → Int → σ) (len : σ → Int) (set : σ → Bytes → σ)
    (emit : σ → List ω) (hf : lenField tag setLen ∈ W.fields)
    (hg : strField tag' len set emit ∈ W.fields) (hs : W.stage c = tag)
    (hs' : ∀ n, W.stage (setLen c n) = tag') (hlen : ∀ n, len (setLen c n) = n) {src : Bytes}
    {n : Int} (hn : n = src.length) (hint : IsInt32 n) :
    W.decoder.Run c (writeInt n ++ src) (emit (set (setLen c n) (nulPadded src)))
      (max 4 src.length) (set (setLen c n) (nulPadded src)) :=
  (lenField_run setLen hf hs hint).append (strField_run hg (hs' n) src (by rw [hlen, hn]))

end

/-! ## Connections -/

structure ReadCbs (σ κ : Type) where
  alloc : Nat → Nat → BufStore → Option Nat → Option (BufStore × Nat × UvBuf)
  read : Int → Rx σ κ → Option (Exit (Rx σ κ))

/-- The buffers of one connection and the one its context holds, its context and the rest. -/
structure Link (σ κ : Type) where
  store : BufStore
  held : Option Nat
  ctx : σ
  env : κ

def Rx.arrive (nread : Int) (l : Rx σ κ) : Rx σ κ := { l with buf := l.buf.addWritten nread }

/-- More passes than a loop over these bytes and that many fields makes if it ends at all. -/
def Rx.passes (fields : Nat) (l : Rx σ κ) : Nat :=
  (fields + 1) * l.buf.unread.length + fields + 2

namespace Link
variable (C : ReadCbs σ κ) (S : Nat)

def unread (k : Link σ κ) : Bytes := unreadOf k.store k.held

def room (k : Link σ κ) (tie : Nat) : Option Nat :=
  (C.alloc S tie k.store k.held).map fun r => r.2.2.len

/-- libuv asks for room, reads `chunk` into it and reports its length; `none` when the chunk does
not fit or a callback does not come back. -/
def complete (k : Link σ κ) (tie : Nat) (chunk : Bytes) : Option (Link σ κ) :=
  match C.alloc S tie k.store k.held with
  | none => none
  | some (m, p, uv) =>
    if chunk.length ≤ uv.len then
      let m' := m.modifyAt uv.block (·.fill uv.base chunk)
      match m'.heap[p]? with
      | none => none
      | some b =>
        match C.read chunk.length ⟨k.ctx, b, k.env⟩ with
        | some (.done l) => some ⟨m'.modifyAt p fun _ => l.buf, some p, l.ctx, l.env⟩
        | _ => none
    else none

/-- The first half of `complete`: what the read callback is called on. -/
def opened (k : Link σ κ) (tie : Nat) (chunk : Bytes) : Option (BufStore × Nat × Rx σ κ) :=
  match C.alloc S tie k.store k.held with
  | none => none
  | some (m, p, uv) =>
    if chunk.length ≤ uv.len then
      let m' := m.modifyAt uv.block (·.fill uv.base chunk)
      m'.heap[p]?.map fun b => (m', p, ⟨k.ctx, b, k.env⟩)
    else none

/-- The second half: the context holds on to what the loop leaves. -/
def closed (m : BufStore) (p : Nat) (l : Rx σ κ) : Link σ κ :=
  ⟨m.modifyAt p fun _ => l.buf, some p, l.ctx, l.env⟩

/-- libuv asks for room, and the read then ends in an error or at the end of the stream. -/
def fail (k : Link σ κ) (tie : Nat) (nread : Int) : Option (Link σ κ) :=
  match C.alloc S tie k.store k.held with
  | none => none
  | some (m, p, _) =>
    match m.heap[p]? with
    | none => none
    | some b =>
      match C.read nread ⟨k.ctx, b, k.env⟩ with
      | some (.done l) => some (closed m p l)
      | _ => none

theorem complete_eq (k : Link σ κ) (tie : Nat) (chunk : Bytes) :
    k.complete C S tie chunk = (k.opened C S tie chunk).bind fun o =>
      match C.read chunk.length o.2.2 with
      | some (.done l) => some (closed o.1 o.2.1 l)
      | _ => none := by
  unfold complete opened
  cases C.alloc S tie k.store k.held with
  | none => rfl
  | some r =>
    obtain ⟨m, p, uv⟩ := r
    by_cases hfit : chunk.length ≤ uv.len
    · simp only [if_pos hfit]
      cases (m.modifyAt uv.block (·.fill uv.base chunk)).heap[p]? with
      | none => rfl
      | some b => rfl
    · simp only [if_neg hfit]
      rfl

theorem fits_of_complete {k k' : Link σ κ} {tie : Nat} {chunk : Bytes}
    (h : k.complete C S tie chunk = some k') {n : Nat} (hn : k.room C S tie = some n) :
    chunk.length ≤ n := by
  unfold complete at h
  unfold room at hn
  cases halloc : C.alloc S tie k.store k.held with
  | none => simp [halloc] at h
  | some r =>
    obtain ⟨m, p, uv⟩ := r
    simp only [halloc, Option.map_some, Option.some.injEq] at h hn
    subst hn
    by_contra hgt
    rw [if_neg hgt] at h
    cases h

/-- What a completed read has come from. -/
theorem exists_of_complete {k k' : Link σ κ} {tie : Nat} {chunk : Bytes}
    (h : k.complete C S tie chunk = some k') :
    ∃ m p l l', k.opened C S tie chunk = some (m, p, l) ∧
      C.read chunk.length l = some (.done l') ∧ k' = closed m p l' := by
  rw [complete_eq] at h
  obtain ⟨⟨m, p, l⟩, hopened, h⟩ := Option.bind_eq_some_iff.mp h
  cases hread : C.read chunk.length l with
  | none => simp [hread] at h
  | some r =>
    cases r with
    | crash => simp [hread] at h
    | done l' =>
      simp only [hread, Option.some.injEq] at h
      exact ⟨m, p, l, l', hopened, hread, h.symm⟩

theorem exists_read {k k' : Link σ κ} {tie : Nat} {chunk : Bytes}
    (h : k.complete C S tie chunk = some k') :
    ∃ l l', C.read chunk.length l = some (.done l') ∧ l.ctx = k.ctx ∧ l.env = k.env ∧
      k'.ctx = l'.ctx ∧ k'.env = l'.env := by
  obtain ⟨m, p, l, l', hopened, hread, rfl⟩ := exists_of_complete C S h
  refine ⟨l, l', hread, ?_, ?_, rfl, rfl⟩
  all_goals
    unfold opened at hopened
    cases halloc : C.alloc S tie k.store k.held with
    | none => simp [halloc] at hopened
    | some r =>
      obtain ⟨m', p', uv⟩ := r
      simp only [halloc] at hopened
      split at hopened
      · obtain ⟨b, _, heq⟩ := Option.map_eq_some_iff.mp hopened
        obtain ⟨rfl, rfl, rfl⟩ := heq
        rfl
      · cases hopened

theorem exists_failed {k k' : Link σ κ} {tie : Nat} {nread : Int}
    (h : k.fail C S tie nread = some k') :
    ∃ l l', C.read nread l = some (.done l') ∧ l.env = k.env ∧ k'.env = l'.env := by
  unfold fail at h
  cases halloc : C.alloc S tie k.store k.held with
  | none => simp [halloc] at h
  | some r =>
    obtain ⟨m, p, uv⟩ := r
    simp only [halloc] at h
    cases hb : m.heap[p]? with
    | none => simp [hb] at h
    | some b =>
      simp only [hb] at h
      cases hread : C.read nread ⟨k.ctx, b, k.env⟩ with
      | none => simp [hread] at h
      | some r =>
        cases r with
        | crash => simp [hread] at h
        | done l' =>
          simp only [hread, Option.some.injEq] at h
          subst h
          exact ⟨_, l', hread, rfl, rfl⟩

def run : List (Nat × Bytes) → Link σ κ → Option (Link σ κ)
  | [], k => some k
  | (tie, chunk) :: es, k => (k.complete C S tie chunk).bind (run es)

def fits : List (Nat × Bytes) → Link σ κ → Bool
  | [], _ => true
  | (tie, chunk) :: es, k =>
    (k.room C S tie).all (fun n => chunk.length ≤ n) && (k.complete C S tie chunk).all (fits es)

structure Good (W : Wire τ σ ω) (cap : Nat) (k : Link σ κ) : Prop where
  wf : k.store.Wf cap
  holds : ∀ p, k.held = some p → k.store.Held p
  ok : W.ok k.ctx

structure Stored (cap : Nat) (k : Link σ κ) : Prop where
  wf : k.store.Wf cap
  holds : ∀ p, k.held = some p → k.store.Held p

/-- The bytes of a read stand behind the unread ones, and any buffer in order can be put back. -/
structure Arrived (cap : Nat) (k : Link σ κ) (chunk : Bytes) (m : BufStore) (p : Nat)
    (l : Rx σ κ) : Prop where
  ctx : l.ctx = k.ctx
  env : l.env = k.env
  wf : (l.arrive chunk.length).buf.Wf cap
  unread : (l.arrive chunk.length).buf.unread = k.unread ++ chunk
  same : chunk.length = 0 → (l.arrive chunk.length).buf = l.buf
  closes : ∀ l' : Rx σ κ, l'.buf.Wf cap →
    (closed m p l').Stored cap ∧ (closed m p l').unread = l'.buf.unread

/-- What is opened has the bytes behind the unread ones, and can be closed again. -/
structure Opened (W : Wire τ σ ω) (cap : Nat) (k : Link σ κ) (chunk : Bytes) (m : BufStore)
    (p : Nat) (l : Rx σ κ) : Prop where
  ctx : l.ctx = k.ctx
  env : l.env = k.env
  wf : (l.arrive chunk.length).buf.Wf cap
  unread : (l.arrive chunk.length).buf.unread = k.unread ++ chunk
  same : chunk.length = 0 → (l.arrive chunk.length).buf = l.buf
  closes : ∀ l' : Rx σ κ, l'.buf.Wf cap → W.ok l'.ctx →
    (closed m p l').Good W cap ∧ (closed m p l').unread = l'.buf.unread

end Link

/-- The alloc callback is one of the four, and the read callback is the loop for `W`; it may skip
the loop when nothing has arrived. -/
structure ReadCbs.Implements (C : ReadCbs σ κ) (W : Wire τ σ ω) (hook : κ → ω → Option κ) :
    Prop where
  alloc : ∃ remainOf, C.alloc = allocCb remainOf ∧
    ∀ cap b, ByteBuf.Wf cap b → b.size - b.writeIdx < 2147483648 →
      (remainOf b : Int) = b.size - b.writeIdx
  read : ∀ (n : Nat) l,
    C.read n l = W.readLoop hook ((l.arrive n).passes W.fields.length) (l.arrive n) ∨
      n = 0 ∧ C.read n l = some (.done l)

theorem foldlM_keeps {P : κ → Prop} {hook : κ → ω → Option κ}
    (hP : ∀ e o e', P e → hook e o = some e' → P e') {os : List ω} {e e' : κ} (he : P e)
    (h : os.foldlM hook e = some e') : P e' := by
  induction os generalizing e with
  | nil => exact Option.some.inj h ▸ he
  | cons o os ih =>
    obtain ⟨e₁, h₁, hrest⟩ := Option.bind_eq_some_iff.mp h
    exact ih (hP e o e₁ he h₁) hrest

theorem Field.run_keeps {P : κ → Prop} {stage : σ → τ} {hook : κ → ω → Option κ}
    (hP : ∀ e o e', P e → hook e o = some e' → P e') (f : Field τ σ ω) :
    Keeps (fun l : Rx σ κ => P l.env) (f.run stage hook) := by
  intro l l' hl h
  unfold Field.run at h
  split at h
  · split at h
    · split at h
      · rcases h with h | h <;> cases h
      · split at h
        · cases hemit : (f.emit (f.store l.ctx l.buf.ptr)).foldlM hook l.env with
          | none =>
            simp only [hemit] at h
            rcases h with h | h <;> cases h
          | some env =>
            simp only [hemit] at h
            rcases h with h | h
            · obtain rfl := Flow.next.inj h
              exact foldlM_keeps hP hl hemit
            · cases h
        · rcases h with h | h
          · exact Flow.next.inj h ▸ hl
          · cases h
    · rcases h with h | h
      · cases h
      · exact Flow.leave.inj h ▸ hl
  · rcases h with h | h
    · exact Flow.next.inj h ▸ hl
    · cases h

/-- What every callback keeps, a read completion keeps. -/
theorem Link.complete_keeps {C : ReadCbs σ κ} {W : Wire τ σ ω} {hook : κ → ω → Option κ}
    (hC : C.Implements W hook) {P : κ → Prop}
    (hP : ∀ e o e', P e → hook e o = some e' → P e') {S tie : Nat} {chunk : Bytes}
    {k k' : Link σ κ} (hk : P k.env) (h : k.complete C S tie chunk = some k') : P k'.env := by
  obtain ⟨l, l', hread, _, henv, _, henv'⟩ := exists_read C S h
  rw [← henv] at hk
  rw [henv']
  rcases hC.read chunk.length l with hloop | ⟨_, hskip⟩
  · rw [hloop] at hread
    apply loop_keeps _ (s := l.arrive chunk.length) hk hread
    apply seq_keeps
    intro b hb
    obtain ⟨s, hs, rfl⟩ := List.mem_map.mp hb
    obtain ⟨f, _, rfl⟩ := List.mem_map.mp hs
    exact f.run_keeps hP
  · rw [hskip] at hread
    exact Exit.done.inj (Option.some.inj hread) ▸ hk

/-- A first read of 2^31 bytes takes `write_idx` below `read_idx`, and the loop is not entered. -/
theorem Link.complete_overflow {C : ReadCbs σ κ} {W : Wire τ σ ω} {hook : κ → ω → Option κ}
    (hC : C.Implements W hook) (ctx : σ) (env : κ) {stream : Bytes}
    (hlen : stream.length = 2147483648) :
    ∃ k, (⟨⟨[], []⟩, none, ctx, env⟩ : Link σ κ).complete C 2147483648 0 stream = some k ∧
      k.env = env := by
  obtain ⟨remainOf, halloc, _⟩ := hC.alloc
  have hcall : allocCb remainOf 2147483648 0 ⟨[], []⟩ none =
      some (⟨[createBuf 2147483648], []⟩, 0, ⟨0, 0, 2147483648⟩) :=
    allocCb_empty remainOf (by decide) 0
  let b : ByteBuf := (createBuf 2147483648).fill 0 stream
  have hfill : (BufStore.modifyAt ⟨[createBuf 2147483648], []⟩ 0 (·.fill 0 stream)).heap[0]? =
      some b := rfl
  have hmore : ((⟨ctx, b, env⟩ : Rx σ κ).arrive (2147483648 : Nat)).more = false := by
    simp [Rx.more, Rx.arrive, ByteBuf.addWritten, b, createBuf, toInt32]
  have hread : C.read (2147483648 : Nat) ⟨ctx, b, env⟩ =
      some (.done ((⟨ctx, b, env⟩ : Rx σ κ).arrive (2147483648 : Nat))) := by
    rcases hC.read 2147483648 ⟨ctx, b, env⟩ with hloop | ⟨hzero, _⟩
    · rw [hloop]
      exact loop_exit hmore _
    · cases hzero
  refine ⟨⟨(BufStore.modifyAt ⟨[createBuf 2147483648], []⟩ 0 (·.fill 0 stream)).modifyAt 0
    fun _ => b.addWritten (2147483648 : Nat), some 0, ctx, env⟩, ?_, rfl⟩
  simp only [Link.complete, halloc, hcall, hlen, Nat.le_refl, if_true, hfill, hread]
  rfl

/-- A connection that has no buffer yet, with an empty pool, offers a whole one. -/
theorem Link.room_empty {C : ReadCbs σ κ} {W : Wire τ σ ω} {hook : κ → ω → Option κ}
    (hC : C.Implements W hook) {S : Nat} (hS : 3 ≤ S) (ctx : σ) (env : κ) (tie : Nat) :
    (⟨⟨[], []⟩, none, ctx, env⟩ : Link σ κ).room C S tie = some (toUInt32 S) := by
  obtain ⟨remainOf, halloc, _⟩ := hC.alloc
  rw [Link.room, halloc, allocCb_empty remainOf hS]
  rfl

section
variable {C : ReadCbs σ κ} {W : Wire τ σ ω} {hook : κ → ω → Option κ} {S : Nat}
variable (hC : C.Implements W hook) (hS : 3 ≤ S)
include hC hS

/-- The room offered is a third of a buffer or all that the unread bytes leave. -/
theorem Link.room_spec {k : Link σ κ} (hk : k.Good W (toUInt32 S)) (tie : Nat) :
    ∃ n, k.room C S tie = some n ∧ k.unread.length + n ≤ toUInt32 S ∧
      (S / 3 ≤ n ∨ 2147483648 ≤ n ∨ k.unread.length + n = toUInt32 S) := by
  obtain ⟨remainOf, halloc, hexact⟩ := hC.alloc
  obtain ⟨m, p, b, hcall, ha, hroom⟩ : ∃ m p b, allocCb remainOf S tie k.store k.held =
      some (m, p, offer p b) ∧ Allocated (toUInt32 S) k.store k.held m p b ∧
        (S / 3 ≤ remainOf b ∨ b.readIdx = 0) := allocCb_spec hS tie hk.wf hk.holds
  have hbwf := ha.buffer_wf
  have hlen := hbwf.offer_len (toUInt32_lt S) p
  have := hbwf.size_eq
  have := hbwf.read_nonneg
  have := hbwf.read_le
  have hunread : (k.unread.length : Int) = b.writeIdx - b.readIdx := by
    rw [Link.unread, ← ha.unread]
    exact hbwf.unread_length
  refine ⟨(offer p b).len, by rw [Link.room, halloc, hcall]; rfl, by omega, ?_⟩
  rcases hroom with hroom | hroom
  · by_cases hint : b.size - b.writeIdx < 2147483648
    · left
      have := hexact _ b hbwf hint
      omega
    · right
      left
      omega
  · right
    right
    omega

omit hS in
/-- A read callback takes the decoder to where it settles on the bytes that are there. -/
theorem ReadCbs.Implements.read_spec {l : Rx σ κ} {cap n : Nat} (hwf : (l.arrive n).buf.Wf cap)
    (hok : W.ok l.ctx) (hsame : n = 0 → (l.arrive n).buf = l.buf)
    (hwaits : (l.arrive n).buf.unread = [] ∨ n = 0 →
      W.decoder.Waits l.ctx (l.arrive n).buf.unread)
    {os : List ω} {s' : σ} {us' : Bytes} {env' : κ}
    (hs : W.decoder.Settles l.ctx (l.arrive n).buf.unread os s' us')
    (henv : os.foldlM hook l.env = some env') :
    ∃ l', C.read n l = some (.done l') ∧ l'.buf.Wf cap ∧ W.ok l'.ctx ∧ l'.ctx = s' ∧
      l'.buf.unread = us' ∧ l'.env = env' := by
  rcases hC.read n l with hloop | ⟨hzero, hskip⟩
  · obtain ⟨l', hl', hinv, hst, hun, hen⟩ := (W.implements hook cap).loop_settles W.measure
      (l := l.arrive n) ⟨hwf, hok⟩ (fun hnil => hwaits (Or.inl hnil)) (Nat.le_refl _) hs henv
    exact ⟨l', hloop.trans hl', hinv.1, hinv.2, hst, hun, hen⟩
  · obtain ⟨rfl, rfl, rfl⟩ := (hwaits (Or.inr hzero)).stuck hs.1
    have hbuf := hsame hzero
    rw [hbuf] at hwf
    exact ⟨l, hskip, hwf, hok, rfl, by rw [hbuf], Option.some.inj henv⟩

omit hC in
theorem Link.opened_arrived {k : Link σ κ} (hk : k.Stored (toUInt32 S))
    {remainOf : ByteBuf → Nat} (halloc : C.alloc = allocCb remainOf) (tie : Nat) (chunk : Bytes)
    (hroom : ∀ n, k.room C S tie = some n →
      chunk.length ≤ n ∧ toUInt32 S + chunk.length < 2147483648 + n) :
    ∃ m p l, k.opened C S tie chunk = some (m, p, l) ∧ Arrived (toUInt32 S) k chunk m p l := by
  obtain ⟨m, p, b, hcall, ha, _⟩ : ∃ m p b, allocCb remainOf S tie k.store k.held =
      some (m, p, offer p b) ∧ Allocated (toUInt32 S) k.store k.held m p b ∧ _ :=
    allocCb_spec hS tie hk.wf hk.holds
  obtain ⟨hfit, hint⟩ := hroom (offer p b).len (by rw [Link.room, halloc, hcall]; rfl)
  have hbwf := ha.buffer_wf
  have hlen := hbwf.offer_len (toUInt32_lt S) p
  have hfill : (m.modifyAt p (·.fill b.writeIdx chunk)).heap[p]? =
      some (b.fill b.writeIdx chunk) := by
    rw [BufStore.getElem?_modifyAt, if_pos rfl, ha.buffer]
    rfl
  have hinside : b.writeIdx + (chunk.length : Int) ≤ toUInt32 S := by omega
  obtain ⟨hwf, hunread⟩ := hbwf.received (by omega) hinside
  refine ⟨m.modifyAt p (·.fill b.writeIdx chunk), p, ⟨k.ctx, b.fill b.writeIdx chunk, k.env⟩, ?_,
    rfl, rfl, hwf, ?_, ?_, ?_⟩
  · have hblock : (offer p b).block = p := rfl
    have hbase : (offer p b).base = b.writeIdx := rfl
    simp only [opened, halloc, hcall, if_pos hfit]
    rw [hblock, hbase, hfill]
    rfl
  · refine hunread.trans ?_
    rw [ha.unread]
    rfl
  · intro hzero
    have := hbwf.read_nonneg
    have := hbwf.read_le
    have hindex : IsInt32 (b.fill b.writeIdx chunk).writeIdx :=
      ⟨by rw [ByteBuf.fill_writeIdx]; omega, by rw [ByteBuf.fill_writeIdx]; omega⟩
    simp only [Rx.arrive, hzero]
    exact ByteBuf.addWritten_zero hindex
  · intro l' hwf'
    refine ⟨⟨?_, ?_⟩, ?_⟩
    · simp only [closed, BufStore.modifyAt_modifyAt]
      exact ha.wf.modifyAt ha.buffer hwf'
    · intro q hq
      obtain rfl : p = q := Option.some.inj hq
      apply (BufStore.held_modifyAt_iff _ _ _ _).mpr
      apply (BufStore.held_modifyAt_iff _ _ _ _).mpr
      exact ha.holds
    · simp only [closed, Link.unread, unreadOf, BufStore.getElem?_modifyAt, if_true, ha.buffer]
      rfl

theorem Link.opened_spec {k : Link σ κ} (hk : k.Good W (toUInt32 S)) (tie : Nat) (chunk : Bytes)
    (hroom : ∀ n, k.room C S tie = some n →
      chunk.length ≤ n ∧ toUInt32 S + chunk.length < 2147483648 + n) :
    ∃ m p l, k.opened C S tie chunk = some (m, p, l) ∧ Opened W (toUInt32 S) k chunk m p l := by
  obtain ⟨remainOf, halloc, _⟩ := hC.alloc
  have hstored : k.Stored (toUInt32 S) := ⟨hk.wf, hk.holds⟩
  obtain ⟨m, p, l, hopened, ha⟩ := opened_arrived hS hstored halloc tie chunk hroom
  refine ⟨m, p, l, hopened, ha.ctx, ha.env, ha.wf, ha.unread, ha.same, ?_⟩
  intro l' hwf' hok'
  obtain ⟨hstored', hunread⟩ := ha.closes l' hwf'
  exact ⟨⟨hstored'.wf, hstored'.holds, hok'⟩, hunread⟩

omit hC hS in
theorem Link.Opened.waits {k : Link σ κ} {chunk : Bytes} {m : BufStore} {p cap : Nat} {l : Rx σ κ}
    (ho : Opened W cap k chunk m p l) (hwaits : W.decoder.Waits k.ctx k.unread) :
    (l.arrive chunk.length).buf.unread = [] ∨ chunk.length = 0 →
      W.decoder.Waits l.ctx (l.arrive chunk.length).buf.unread := by
  rw [ho.unread, ho.ctx, List.append_eq_nil_iff, List.length_eq_zero_iff]
  intro hnil
  have hchunk : chunk = [] := hnil.elim And.right id
  rw [hchunk, List.append_nil]
  exact hwaits

/-- One read completion takes the decoder to where it settles, as long as `write_idx` stays below
2^31. -/
theorem Link.complete_spec {k : Link σ κ} (hk : k.Good W (toUInt32 S)) (tie : Nat) (chunk : Bytes)
    (hroom : ∀ n, k.room C S tie = some n →
      chunk.length ≤ n ∧ toUInt32 S + chunk.length < 2147483648 + n)
    (hwaits : W.decoder.Waits k.ctx k.unread) {os : List ω} {s' : σ} {us' : Bytes} {env' : κ}
    (hs : W.decoder.Settles k.ctx (k.unread ++ chunk) os s' us')
    (henv : os.foldlM hook k.env = some env') :
    ∃ k', k.complete C S tie chunk = some k' ∧ k'.Good W (toUInt32 S) ∧ k'.ctx = s' ∧
      k'.unread = us' ∧ k'.env = env' := by
  obtain ⟨m, p, l, hopened, ho⟩ := opened_spec hC hS hk tie chunk hroom
  have hok : W.ok l.ctx := by
    rw [ho.ctx]
    exact hk.ok
  rw [← ho.ctx, ← ho.unread] at hs
  rw [← ho.env] at henv
  obtain ⟨l', hl', hwf', hok', hst, hun, hen⟩ :=
    hC.read_spec ho.wf hok ho.same (ho.waits hwaits) hs henv
  obtain ⟨hgood, hclosed⟩ := ho.closes l' hwf' hok'
  refine ⟨closed m p l', ?_, hgood, hst, hclosed.trans hun, hen⟩
  rw [complete_eq, hopened]
  simp only [Option.bind_some, hl']

omit hS in
/-- A read callback that comes back has taken the decoder to where it settles. -/
theorem ReadCbs.Implements.read_done {l l' : Rx σ κ} {cap n : Nat}
    (hwf : (l.arrive n).buf.Wf cap) (hok : W.ok l.ctx) (hsame : n = 0 → (l.arrive n).buf = l.buf)
    (hwaits : (l.arrive n).buf.unread = [] ∨ n = 0 →
      W.decoder.Waits l.ctx (l.arrive n).buf.unread)
    (h : C.read n l = some (.done l')) :
    l'.buf.Wf cap ∧ W.ok l'.ctx ∧
      ∃ os, W.decoder.Settles l.ctx (l.arrive n).buf.unread os l'.ctx l'.buf.unread ∧
        os.foldlM hook l.env = some l'.env := by
  rcases hC.read n l with hloop | ⟨hzero, hskip⟩
  · rw [hloop] at h
    obtain ⟨hinv, os, hs, hk⟩ := (W.implements hook cap).loop_done W.measure
      (l := l.arrive n) ⟨hwf, hok⟩ (fun hnil => hwaits (Or.inl hnil)) (Nat.le_refl _) h
    exact ⟨hinv.1, hinv.2, os, hs, hk⟩
  · rw [hskip] at h
    obtain rfl : l = l' := Exit.done.inj (Option.some.inj h)
    have hw := hwaits (Or.inr hzero)
    rw [hsame hzero] at hwf hw ⊢
    exact ⟨hwf, hok, [], ⟨.refl _ _, hw⟩, rfl⟩

theorem Link.settles_of_complete {k k' : Link σ κ} (hk : k.Good W (toUInt32 S)) {tie : Nat}
    {chunk : Bytes} (hroom : ∀ n, k.room C S tie = some n →
      chunk.length ≤ n ∧ toUInt32 S + chunk.length < 2147483648 + n)
    (hwaits : W.decoder.Waits k.ctx k.unread) (h : k.complete C S tie chunk = some k') :
    k'.Good W (toUInt32 S) ∧ ∃ os,
      W.decoder.Settles k.ctx (k.unread ++ chunk) os k'.ctx k'.unread ∧
        os.foldlM hook k.env = some k'.env := by
  obtain ⟨m, p, l, hopened, ho⟩ := opened_spec hC hS hk tie chunk hroom
  have hok : W.ok l.ctx := by
    rw [ho.ctx]
    exact hk.ok
  obtain ⟨m', p', l₁, l', hopened', hread, rfl⟩ := exists_of_complete C S h
  obtain ⟨rfl, rfl, rfl⟩ : m = m' ∧ p = p' ∧ l = l₁ := by
    simpa [hopened] using hopened'
  obtain ⟨hwf', hok', os, hs, henv⟩ := hC.read_done ho.wf hok ho.same (ho.waits hwaits) hread
  obtain ⟨hgood, hclosed⟩ := ho.closes l' hwf' hok'
  rw [ho.ctx, ho.unread, ← hclosed] at hs
  rw [ho.env] at henv
  exact ⟨hgood, os, hs, henv⟩

/-- A frame that is read in one piece, with nothing unread before it, leaves nothing unread. -/
theorem Link.complete_frame {α : Type} (F : W.decoder.Framing α) {a : α} (ha : F.good a)
    {k : Link σ κ} (hk : k.Good W (toUInt32 S)) (hbetween : F.between k.ctx)
    (hunread : k.unread = []) (tie : Nat)
    (hroom : ∀ n, k.room C S tie = some n →
      (F.enc a).length ≤ n ∧ toUInt32 S + (F.enc a).length < 2147483648 + n)
    {env' : κ} (henv : hook k.env (F.out a) = some env') :
    ∃ k', k.complete C S tie (F.enc a) = some k' ∧ k'.Good W (toUInt32 S) ∧ F.between k'.ctx ∧
      k'.unread = [] ∧ k'.env = env' := by
  obtain ⟨s', hs', hpiece⟩ := F.piece _ _ hbetween ha
  have hwaits : W.decoder.Waits k.ctx k.unread := by
    rw [hunread]
    exact F.need_pos _ hbetween
  have hsettles : W.decoder.Settles k.ctx (k.unread ++ F.enc a) [F.out a] s' [] := by
    rw [hunread]
    exact ⟨hpiece.whole, F.need_pos _ hs'⟩
  obtain ⟨k', hk', hgood, rfl, hrest, hen⟩ := complete_spec hC hS hk tie (F.enc a) hroom hwaits
    hsettles (by simpa using henv)
  exact ⟨k', hk', hgood, hs', hrest, hen⟩

/-- The rest of a run after such a read. -/
theorem Link.run_frame {α : Type} (F : W.decoder.Framing α) {a : α} (ha : F.good a)
    {k : Link σ κ} (hk : k.Good W (toUInt32 S)) (hbetween : F.between k.ctx)
    (hunread : k.unread = []) (tie : Nat)
    (hroom : ∀ n, k.room C S tie = some n →
      (F.enc a).length ≤ n ∧ toUInt32 S + (F.enc a).length < 2147483648 + n)
    {env' : κ} (henv : hook k.env (F.out a) = some env') :
    ∃ k' : Link σ κ, k'.Good W (toUInt32 S) ∧ F.between k'.ctx ∧ k'.unread = [] ∧ k'.env = env' ∧
      ∀ es, k.fits C S ((tie, F.enc a) :: es) = k'.fits C S es ∧
        k.run C S ((tie, F.enc a) :: es) = k'.run C S es := by
  obtain ⟨k', hk', hgood, hbetween', hunread', henv'⟩ :=
    complete_frame hC hS F ha hk hbetween hunread tie hroom henv
  refine ⟨k', hgood, hbetween', hunread', henv', ?_⟩
  intro es
  have hfirst : (k.room C S tie).all (fun n => (F.enc a).length ≤ n) = true := by
    rw [Option.all_eq_true]
    intro n hn
    exact decide_eq_true (hroom n hn).1
  constructor
  · rw [Link.fits, hfirst, hk', Bool.true_and]
    rfl
  · rw [Link.run, hk']
    rfl

variable (hcap : toUInt32 S < 2147483648)
include hcap

/-- Any number of read completions: what counts is the bytes received, not how they were cut. -/
theorem Link.run_settles {es : List (Nat × Bytes)} {k : Link σ κ} (hk : k.Good W (toUInt32 S))
    (hwaits : W.decoder.Waits k.ctx k.unread) (hfits : k.fits C S es = true)
    (hall : ∀ ps, ps <+: (es.map Prod.snd).flatten → ∃ os s' us' env',
      W.decoder.Settles k.ctx (k.unread ++ ps) os s' us' ∧ os.foldlM hook k.env = some env') :
    ∃ k' os, k.run C S es = some k' ∧ k'.Good W (toUInt32 S) ∧
      W.decoder.Settles k.ctx (k.unread ++ (es.map Prod.snd).flatten) os k'.ctx k'.unread ∧
      os.foldlM hook k.env = some k'.env := by
  induction es generalizing k with
  | nil => exact ⟨k, [], rfl, hk, by simpa using ⟨.refl _ _, hwaits⟩, rfl⟩
  | cons e es ih =>
    obtain ⟨tie, chunk⟩ := e
    simp only [fits, Bool.and_eq_true, Option.all_eq_true] at hfits
    simp only [List.map_cons, List.flatten_cons] at hall ⊢
    obtain ⟨os₁, s₁, us₁, env₁, hs₁, henv₁⟩ := hall chunk (List.prefix_append _ _)
    obtain ⟨k₁, hk₁, hgood, rfl, rfl, rfl⟩ := complete_spec hC hS hk tie chunk (fun n hn => by
      have hfit : chunk.length ≤ n := by simpa using hfits.1 n hn
      exact ⟨hfit, by omega⟩) hwaits hs₁ henv₁
    have hnext : ∀ ps, ps <+: (es.map Prod.snd).flatten → ∃ os s' us' env',
        W.decoder.Settles k₁.ctx (k₁.unread ++ ps) os s' us' ∧
          os.foldlM hook k₁.env = some env' := by
      intro ps hps
      obtain ⟨os, s', us', env', hs, henv⟩ := hall (chunk ++ ps)
        ((List.prefix_append_right_inj chunk).mpr hps)
      rw [← List.append_assoc] at hs
      obtain ⟨os₂, rfl, hs₂⟩ := hs.after (hs₁.1.append ps)
      rw [List.foldlM_append, henv₁] at henv
      exact ⟨os₂, s', us', env', hs₂, henv⟩
    obtain ⟨k', os₂, hrun, hgood', hs₂, henv₂⟩ := ih hgood hs₁.2 (hfits.2 k₁ hk₁) hnext
    refine ⟨k', os₁ ++ os₂, by simp [run, hk₁, hrun], hgood', ?_, ?_⟩
    · rw [← List.append_assoc]
      exact hs₁.resume hs₂
    · rw [List.foldlM_append, henv₁]
      exact henv₂

omit hC hS in
theorem Link.room_of_complete {k k' : Link σ κ} {tie : Nat} {chunk : Bytes}
    (h : k.complete C S tie chunk = some k') : ∀ n, k.room C S tie = some n →
      chunk.length ≤ n ∧ toUInt32 S + chunk.length < 2147483648 + n := by
  intro n hn
  have hfit := fits_of_complete C S h hn
  exact ⟨hfit, by omega⟩

/-- Read completions that all come back: on the bytes received the decoder settles. -/
theorem Link.settles_of_run {es : List (Nat × Bytes)} {k k' : Link σ κ}
    (hk : k.Good W (toUInt32 S)) (hwaits : W.decoder.Waits k.ctx k.unread)
    (h : k.run C S es = some k') :
    k'.Good W (toUInt32 S) ∧ ∃ os,
      W.decoder.Settles k.ctx (k.unread ++ (es.map Prod.snd).flatten) os k'.ctx k'.unread ∧
        os.foldlM hook k.env = some k'.env := by
  induction es generalizing k with
  | nil =>
    obtain rfl : k = k' := Option.some.inj h
    exact ⟨hk, [], by simpa using ⟨.refl _ _, hwaits⟩, rfl⟩
  | cons e es ih =>
    obtain ⟨tie, chunk⟩ := e
    obtain ⟨k₁, hk₁, hrest⟩ := Option.bind_eq_some_iff.mp h
    obtain ⟨hgood, os₁, hs₁, henv₁⟩ := settles_of_complete hC hS hk (room_of_complete hcap hk₁)
      hwaits hk₁
    obtain ⟨hgood', os₂, hs₂, henv₂⟩ := ih hgood hs₁.2 hrest
    refine ⟨hgood', os₁ ++ os₂, ?_, ?_⟩
    · rw [List.map_cons, List.flatten_cons, ← List.append_assoc]
      exact hs₁.resume hs₂
    · rw [List.foldlM_append, henv₁]
      exact henv₂

/-- Whatever a run of reads has taken off the wire fits into one buffer, field by field. -/
theorem Link.need_le_of_run {es : List (Nat × Bytes)} {k k' : Link σ κ}
    (hk : k.Good W (toUInt32 S)) (hwaits : W.decoder.Waits k.ctx k.unread)
    (h : k.run C S es = some k') {os₁ : List ω} {s₁ : σ} {us₁ : Bytes}
    (hsteps : W.decoder.Steps k.ctx (k.unread ++ (es.map Prod.snd).flatten) os₁ s₁ us₁)
    (hleft : k'.unread.length < us₁.length) : W.decoder.need s₁ ≤ toUInt32 S := by
  induction es generalizing k os₁ with
  | nil =>
    obtain rfl : k = k' := Option.some.inj h
    have hle := hsteps.length_le
    simp only [List.map_nil, List.flatten_nil, List.append_nil] at hle
    omega
  | cons e es ih =>
    obtain ⟨tie, chunk⟩ := e
    obtain ⟨k₁, hk₁, hrest⟩ := Option.bind_eq_some_iff.mp h
    obtain ⟨hgood, os, hs, _⟩ := settles_of_complete hC hS hk (room_of_complete hcap hk₁) hwaits hk₁
    obtain ⟨n, hn, hroom, _⟩ := Link.room_spec hC hS hk tie
    have hfit := fits_of_complete C S hk₁ hn
    rw [List.map_cons, List.flatten_cons, ← List.append_assoc] at hsteps
    rcases (hs.1.append (es.map Prod.snd).flatten).linear hsteps with
      ⟨_, _, hlater⟩ | ⟨_, _, hsooner⟩
    · exact ih hgood hs.2 hrest hlater
    · cases hsooner with
      | refl => exact ih hgood hs.2 hrest (.refl _ _)
      | head hle _ hafter =>
        -- the field was taken out of the unread bytes and this chunk
        have hafter := hafter.length_le
        have hbefore := hsteps.length_le
        simp only [List.length_append, List.length_drop] at hafter hbefore
        omega

theorem Link.run_frames {α : Type} (F : W.decoder.Framing α) {as : List α}
    (hgood : ∀ a ∈ as, F.good a) {es : List (Nat × Bytes)} {k : Link σ κ}
    (hk : k.Good W (toUInt32 S)) (hbetween : F.between k.ctx) (hunread : k.unread = [])
    (hfits : k.fits C S es = true)
    (hstream : (es.map Prod.snd).flatten <+: (as.map F.enc).flatten)
    (hhandled : ∀ bs, bs <+: as → ∃ env', (bs.map F.out).foldlM hook k.env = some env') :
    ∃ k', k.run C S es = some k' ∧
      ((Decoder.complete F.enc as (es.map Prod.snd).flatten.length).map F.out).foldlM hook k.env =
        some k'.env := by
  have hwaits : W.decoder.Waits k.ctx k.unread := by
    rw [hunread]
    exact F.need_pos _ hbetween
  have hsettles : ∀ ps, ps <+: (es.map Prod.snd).flatten → ∃ os s' us' env',
      W.decoder.Settles k.ctx (k.unread ++ ps) os s' us' ∧ os.foldlM hook k.env = some env' := by
    intro ps hps
    obtain ⟨s', us', hs⟩ := F.settle hgood hbetween (hps.trans hstream)
    obtain ⟨env', henv⟩ := hhandled _ (Decoder.complete_isPrefix F.enc as ps.length)
    rw [hunread]
    exact ⟨_, s', us', env', hs, henv⟩
  obtain ⟨k', os, hrun, _, hs, henv⟩ := Link.run_settles hC hS hcap hk hwaits hfits hsettles
  obtain ⟨s', us', hs'⟩ := F.settle hgood hbetween hstream
  rw [hunread] at hs
  obtain ⟨rfl, _, _⟩ := hs.unique hs'
  exact ⟨k', hrun, henv⟩

end
end
end PyAgent
