import PyAgent.PaServer
import PyAgent.DubboClient

/-!
# When the read loops end

A wrong magic number is neither skipped nor an error for the loops of `on_read` and
`_d_read_cb`: they go on forever. This says which states and bytes lead there.
-/

namespace PyAgent
set_option autoImplicit false

open Streaming

theorem take_two_eq_iff {us : Bytes} (h : 2 ≤ us.length) (a b : UInt8) :
    us.take 2 = [a, b] ↔ us.getD 0 0 = a ∧ us.getD 1 0 = b := by
  match us, h with
  | x :: y :: us, _ => simp

/-! ## `on_read` -/

/-- The key has not been read, and what comes first is not its magic number. Past the last field of
the key the flag `has_header` would have to be set. -/
def StreamContext.Stuck (c : StreamContext) (us : Bytes) : Prop :=
  c.hasHeader = false ∧ us ≠ [] ∧ (c.headerState = .done ∨
    c.headerState = .magic ∧ 2 ≤ us.length ∧ us.take 2 ≠ [0xab, 0xcd])

theorem actWire_ok_iff (c : StreamContext) : actWire.ok c ↔ c.stage ≠ .inl .done := by
  have h : ∀ t, t ∈ actFields.map Field.tag ↔ t ≠ .inl .done := by
    intro t
    rcases t with t | t <;> cases t <;>
      simp [actFields, headerFields, bodyFields, Field.retag, headerMagic, lenField, strField]
  rw [← h, List.mem_map]
  simp only [Wire.ok, actWire, eq_comm]

theorem eq_magic_of_not_accepts {f : Field (HeaderState ⊕ BodyState) StreamContext DubboRequest}
    (hf : f ∈ actFields) {us : Bytes} (h : f.accepts us = false) : f = headerMagic.retag .inl := by
  simp only [actFields, headerFields, bodyFields, List.map_cons, List.map_nil, List.cons_append,
    List.nil_append, List.mem_cons, List.not_mem_nil, or_false] at hf
  rcases hf with rfl | rfl | rfl | rfl | rfl | rfl | rfl | rfl | rfl | rfl
  · rfl
  all_goals cases h

theorem mem_actFields_iff {f : Field (HeaderState ⊕ BodyState) StreamContext DubboRequest} :
    f ∈ actFields ↔
      (∃ g ∈ headerFields, f = g.retag .inl) ∨ ∃ g ∈ bodyFields, f = g.retag .inr := by
  simp only [actFields, List.mem_append, List.mem_map, eq_comm]

theorem stage_store_ne {f : Field (HeaderState ⊕ BodyState) StreamContext DubboRequest}
    (hf : f ∈ actFields) {c : StreamContext} (hs : c.stage = f.tag) (bs : Bytes) :
    (f.store c bs).stage ≠ .inl .magic := by
  have hheader : ∀ g ∈ headerFields, (g.store c bs).headerState ≠ .magic := by
    simp [headerFields, headerMagic, lenField, strField, StreamContext.gotInterfaceLen,
      StreamContext.gotInterface, StreamContext.gotMethodLen, StreamContext.gotMethod,
      StreamContext.gotPtsLen, StreamContext.gotPts]
  have hbody : ∀ g ∈ bodyFields, (g.store c bs).hasHeader = c.hasHeader := by
    simp [bodyFields, lenField, strField, StreamContext.gotId, StreamContext.gotPLen,
      StreamContext.gotParameter]
  intro hmagic
  obtain ⟨hh, hmagic⟩ := stage_eq_inl_iff.mp hmagic
  rcases mem_actFields_iff.mp hf with ⟨g, hg, rfl⟩ | ⟨g, hg, rfl⟩
  · exact hheader g hg hmagic
  · obtain ⟨hc, _⟩ := stage_eq_inr_iff.mp hs
    have hkeep : (g.store c bs).hasHeader = c.hasHeader := hbody g hg
    rw [← hkeep] at hc
    exact absurd (hh.symm.trans hc) (by decide)

theorem steps_to_magic {c c' : StreamContext} {us us' : Bytes} {os : List DubboRequest}
    (h : actWire.decoder.Steps c us os c' us') (hc' : c'.stage = .inl .magic) :
    os = [] ∧ c' = c ∧ us' = us := by
  induction h with
  | refl => exact ⟨rfl, rfl, rfl⟩
  | head _ ht _ ih =>
    obtain ⟨f, hf, hs, _, _, rfl, _⟩ := Wire.exists_took ht
    obtain ⟨_, rfl, _⟩ := ih hc'
    exact absurd hc' (stage_store_ne hf hs _)

section
variable {κ : Type} {dubboFetch : κ → DubboRequest → Option κ} {cap : Nat}

theorem onReadBody_stops_iff {l : Rx StreamContext κ} (hl : l.buf.Wf cap) :
    Stops Rx.more (onReadBody dubboFetch) l ↔ ¬ l.ctx.Stuck l.buf.unread := by
  have hmagic : headerMagic.retag .inl ∈ actWire.fields :=
    mem_actFields_header (by simp [headerFields])
  rw [onReadBody_eq]
  by_cases hok : actWire.ok l.ctx
  · rw [Wire.stops_iff hl hok]
    apply not_congr
    constructor
    · intro hcomes
      obtain ⟨os, c, us, _, hsteps, _, f, hf, hs, _, hn, ha⟩ := hcomes
      obtain rfl := eq_magic_of_not_accepts hf ha
      obtain ⟨_, rfl, rfl⟩ := steps_to_magic hsteps hs
      obtain ⟨hh, hstate⟩ := stage_eq_inl_iff.mp hs
      have hn : 2 ≤ l.buf.unread.length := Int.ofNat_le.mp hn
      refine ⟨hh, ?_, Or.inr ⟨hstate, hn, ?_⟩⟩
      · intro hnil
        rw [hnil] at hn
        cases hn
      · intro htake
        rw [take_two_eq_iff hn] at htake
        exact of_decide_eq_false ha htake
    · intro hstuck
      rcases hstuck with ⟨hh, _, hdone | ⟨hstate, hn, htake⟩⟩
      · exact absurd (stage_eq_inl_iff.mpr ⟨hh, hdone⟩) ((actWire_ok_iff _).mp hok)
      · rw [ne_eq, take_two_eq_iff hn] at htake
        refine ⟨[], l.ctx, l.buf.unread, l.env, .refl _ _, rfl, headerMagic.retag .inl, hmagic,
          stage_eq_inl_iff.mpr ⟨hh, hstate⟩, by simp [Field.retag, headerMagic],
          Int.ofNat_le.mpr hn, ?_⟩
        exact decide_eq_false htake
  · rw [Wire.stops_idle_iff hl hok]
    rw [actWire_ok_iff, not_not, stage_eq_inl_iff] at hok
    obtain ⟨hh, hdone⟩ := hok
    constructor
    · intro hnil hmore
      obtain ⟨_, hne, _⟩ := hmore
      exact hne hnil
    · intro hstuck
      by_contra hne
      exact hstuck ⟨hh, hne, Or.inl hdone⟩

end

/-! ## `_d_read_cb` -/

/-- What is missing of the frame that is being read, followed by whole frames, and the responses
they carry. -/
inductive Frames : DubboReader → Bytes → List DubboResponse → Prop where
  | nil {c : DubboReader} : c.readState = .magic → Frames c [] []
  | magic {c : DubboReader} {bs : Bytes} {rs : List DubboResponse} (flag status : UInt8) :
      c.readState = .magic → Frames c.gotMagic bs rs →
        Frames c ([0xda, 0xbb, flag, status] ++ bs) rs
  | id {c : DubboReader} {bs : Bytes} {rs : List DubboResponse} (i : Bytes) :
      c.readState = .id → i.length = 8 → Frames (c.gotId (bytes2ll i)) bs rs →
        Frames c (i ++ bs) rs
  | dataLen {c : DubboReader} {bs : Bytes} {rs : List DubboResponse} (n : Bytes) :
      c.readState = .dataLen → n.length = 4 → Frames (c.gotDataLen (bytes2int n)) bs rs →
        Frames c (n ++ bs) rs
  | result {c : DubboReader} {bs : Bytes} {rs : List DubboResponse} (p : Bytes) :
      c.readState = .result → c.dubboResp.dataLen = p.length →
        Frames (c.gotResult (nulPadded p)) bs rs →
        Frames c (p ++ bs) ((c.gotResult (nulPadded p)).dubboResp :: rs)

def DubboClient.Awaits {χ : Type} (client : DubboClient χ) (rs : List DubboResponse) : Prop :=
  (rs.map DubboResponse.id).Nodup ∧
    ∀ r ∈ rs, (client.cbs r.id).isSome ∧ (client.contexts r.id).isSome

/-- Behind some whole frames, all of them awaited, what comes next is not the magic number of a
frame. -/
def DubboReader.Misframed {χ : Type} (c : DubboReader) (client : DubboClient χ) (us : Bytes) :
    Prop :=
  ∃ bs rs vs, us = bs ++ vs ∧ Frames c bs rs ∧ client.Awaits rs ∧ 4 ≤ vs.length ∧
    vs.take 2 ≠ [0xda, 0xbb]

theorem foldlM_answer_iff {χ : Type} (client : DubboClient χ) (rs : List DubboResponse) :
    (∃ client', rs.foldlM DubboClient.answer client = some client') ↔ client.Awaits rs :=
  foldlM_isSome_iff DubboResponse.id (fun _ _ h => DubboClient.answer_unknown h)
    (fun _ _ h => DubboClient.answer_known h) client rs

theorem mem_dubboFields {f : Field DubboReadState DubboReader DubboResponse}
    (hf : f ∈ dubboWire.fields) :
    f = dubboMagic ∨ f = dubboId ∨ f = lenField .dataLen DubboReader.gotDataLen ∨
      f = strField .result (fun c => c.dubboResp.dataLen) DubboReader.gotResult
        fun c => [c.dubboResp] := by
  simpa [dubboWire, dubboFields] using hf

theorem Frames.steps {c : DubboReader} {bs : Bytes} {rs : List DubboResponse}
    (h : Frames c bs rs) :
    ∃ c', c'.readState = .magic ∧ dubboWire.decoder.Steps c bs rs c' [] := by
  induction h with
  | nil hc => exact ⟨_, hc, .refl _ _⟩
  | @magic c bs rs flag status hc _ ih =>
    obtain ⟨c', hc', hs⟩ := ih
    have hrun : dubboWire.decoder.Run c [0xda, 0xbb, flag, status] [] 4 c.gotMagic :=
      Wire.field_run (W := dubboWire) (f := dubboMagic) (by simp [dubboWire, dubboFields]) hc _
        rfl rfl
    exact ⟨c', hc', (hrun.whole.append bs).trans hs⟩
  | @id c bs rs i hc hi _ ih =>
    obtain ⟨c', hc', hs⟩ := ih
    have hrun : dubboWire.decoder.Run c i [] i.length (c.gotId (bytes2ll i)) :=
      Wire.field_run (W := dubboWire) (f := dubboId) (by simp [dubboWire, dubboFields]) hc i
        (by simp [dubboId, hi]) rfl
    exact ⟨c', hc', (hrun.whole.append bs).trans hs⟩
  | @dataLen c bs rs n hc hn _ ih =>
    obtain ⟨c', hc', hs⟩ := ih
    have hrun : dubboWire.decoder.Run c n [] n.length (c.gotDataLen (bytes2int n)) :=
      Wire.field_run (W := dubboWire) (f := lenField .dataLen DubboReader.gotDataLen)
        (by simp [dubboWire, dubboFields]) hc n (by simp [lenField, hn]) rfl
    exact ⟨c', hc', (hrun.whole.append bs).trans hs⟩
  | @result c bs rs p hc hp _ ih =>
    obtain ⟨c', hc', hs⟩ := ih
    have hresult : strField .result (fun c => c.dubboResp.dataLen) DubboReader.gotResult
        (fun c => [c.dubboResp]) ∈ dubboWire.fields := by simp [dubboWire, dubboFields]
    have hrun := strField_run hresult hc p hp
    exact ⟨c', hc', (hrun.whole.append bs).trans hs⟩

theorem frames_of_steps {c c' : DubboReader} {us vs : Bytes} {rs : List DubboResponse}
    (h : dubboWire.decoder.Steps c us rs c' vs) (hc' : c'.readState = .magic) :
    ∃ bs, us = bs ++ vs ∧ Frames c bs rs := by
  induction h with
  | refl => exact ⟨[], rfl, .nil hc'⟩
  | @head c c₁ c' us vs os rs hn ht _ ih =>
    obtain ⟨bs, hbs, hframes⟩ := ih hc'
    obtain ⟨f, hf, hstage, h0, ha, rfl, rfl⟩ := Wire.exists_took ht
    rw [Wire.need_eq hf hstage] at hn ha hbs hframes ⊢
    have hus : us = us.take (f.need c).toNat ++ (bs ++ vs) := by
      rw [← hbs, List.take_append_drop]
    generalize hp : us.take (f.need c).toNat = p at hus ha hframes ⊢
    have hlen : p.length = (f.need c).toNat := by
      rw [← hp, List.length_take]
      omega
    refine ⟨p ++ bs, by rw [hus, List.append_assoc], ?_⟩
    rcases mem_dubboFields hf with rfl | rfl | rfl | rfl
    · match p, hlen with
      | [a, b, flag, status], _ =>
        obtain ⟨rfl, rfl⟩ := of_decide_eq_true ha
        exact .magic flag status hstage hframes
    · exact .id p hstage hlen hframes
    · exact .dataLen p hstage hlen hframes
    · have hdata : c.dubboResp.dataLen = p.length := by
        have hneed : 0 ≤ c.dubboResp.dataLen := h0
        rw [hlen]
        exact (Int.toNat_of_nonneg hneed).symm
      have hcopy : strncpy p c.dubboResp.dataLen.toNat = nulPadded p := by
        rw [hdata, Int.toNat_natCast]
        rfl
      simp only [strField, hcopy] at hframes ⊢
      exact .result p hstage hdata hframes

theorem dReadBody_stops_iff {χ : Type} {l : Rx DubboReader (DubboClient χ)} {cap : Nat}
    (hl : l.buf.Wf cap) :
    Stops Rx.more dReadBody l ↔ ¬ l.ctx.Misframed l.env l.buf.unread := by
  have hok : dubboWire.ok l.ctx := by
    cases hstate : l.ctx.readState with
    | magic => exact ⟨dubboMagic, by simp [dubboWire, dubboFields], hstate⟩
    | id => exact ⟨dubboId, by simp [dubboWire, dubboFields], hstate⟩
    | dataLen =>
      exact ⟨lenField .dataLen DubboReader.gotDataLen, by simp [dubboWire, dubboFields], hstate⟩
    | result =>
      exact ⟨strField .result (fun c => c.dubboResp.dataLen) DubboReader.gotResult
        fun c => [c.dubboResp], by simp [dubboWire, dubboFields], hstate⟩
  rw [dReadBody_eq, Wire.stops_iff hl hok]
  apply not_congr
  constructor
  · intro hcomes
    obtain ⟨rs, c, vs, client, hsteps, hanswers, f, hf, hs, _, hn, ha⟩ := hcomes
    have hmagic : f = dubboMagic := by
      rcases mem_dubboFields hf with rfl | rfl | rfl | rfl
      · rfl
      all_goals cases ha
    subst hmagic
    obtain ⟨bs, hbs, hframes⟩ := frames_of_steps hsteps hs
    have hn : 4 ≤ vs.length := Int.ofNat_le.mp hn
    refine ⟨bs, rs, vs, hbs, hframes, (foldlM_answer_iff _ _).mp ⟨client, hanswers⟩, hn, ?_⟩
    rw [ne_eq, take_two_eq_iff (by omega)]
    exact of_decide_eq_false ha
  · intro hmis
    obtain ⟨bs, rs, vs, hbs, hframes, hawaits, hn, htake⟩ := hmis
    obtain ⟨client, hclient⟩ := (foldlM_answer_iff _ _).mpr hawaits
    obtain ⟨c, hc, hsteps⟩ := hframes.steps
    rw [ne_eq, take_two_eq_iff (by omega)] at htake
    refine ⟨rs, c, vs, client, ?_, hclient, dubboMagic, by simp [dubboWire, dubboFields], hc,
      by simp [dubboMagic], Int.ofNat_le.mpr hn, decide_eq_false htake⟩
    rw [hbs]
    exact hsteps.append vs

/-! ## Both loops -/

/-- The loops end, whatever the state and the bytes, unless they come to a wrong magic number. -/
theorem read_loops_stop_iff {κ χ : Type} (dubboFetch : κ → DubboRequest → Option κ)
    {cap cap' : Nat} {l : Rx StreamContext κ} {d : Rx DubboReader (DubboClient χ)}
    (hl : l.buf.Wf cap) (hd : d.buf.Wf cap') :
    (Stops Rx.more (onReadBody dubboFetch) l ↔ ¬ l.ctx.Stuck l.buf.unread) ∧
      (Stops Rx.more dReadBody d ↔ ¬ d.ctx.Misframed d.env d.buf.unread) :=
  ⟨onReadBody_stops_iff hl, dReadBody_stops_iff hd⟩

def firstRead (chunk : Bytes) : ByteBuf :=
  ((createBuf 65536).fill 0 chunk).addWritten chunk.length

theorem firstRead_wf {chunk : Bytes} (h : chunk.length ≤ 65536) :
    (firstRead chunk).Wf 65536 ∧ (firstRead chunk).unread = chunk := by
  have hinside : (createBuf 65536).writeIdx + chunk.length ≤ (65536 : Nat) := by
    simp only [createBuf]
    omega
  exact (ByteBuf.createBuf_wf 65536).received (by omega) hinside

def startContext : StreamContext :=
  createPaContext
    ⟨.magic, false, .id, [], 0, [], 0, [], 0, { id := 0, pLen := 0, parameter := [] }⟩

def startReader : DubboReader := ⟨.magic, ⟨0, 0, []⟩⟩

/-- The magic number of a key and three bytes that do not tell yet. -/
theorem read_loops_stop_magic :
    Stops Rx.more (onReadBody logFetch) ⟨startContext, firstRead [0xab, 0xcd], []⟩ ∧
      Stops Rx.more dReadBody
        ⟨startReader, firstRead [0, 0, 0], (DubboClient.create : DubboClient Unit)⟩ := by
  obtain ⟨hwf, hunread⟩ : (firstRead [0xab, 0xcd]).Wf 65536 ∧ _ := firstRead_wf (by decide)
  obtain ⟨hwf', hunread'⟩ : (firstRead [0, 0, 0]).Wf 65536 ∧ _ := firstRead_wf (by decide)
  obtain ⟨hact, hdubbo⟩ := read_loops_stop_iff (χ := Unit) logFetch
    (l := ⟨startContext, firstRead [0xab, 0xcd], []⟩)
    (d := ⟨startReader, firstRead [0, 0, 0], DubboClient.create⟩) hwf hwf'
  constructor
  · rw [hact, hunread]
    intro hstuck
    rcases hstuck with ⟨_, _, hdone | ⟨_, _, hne⟩⟩
    · cases hdone
    · exact hne rfl
  · rw [hdubbo, hunread']
    intro hmis
    obtain ⟨bs, rs, vs, hvs, _, _, hlen, _⟩ := hmis
    have h := congrArg List.length hvs
    simp only [List.length_append, List.length_cons, List.length_nil] at h
    omega

/-- Two bytes on a new act connection, and four from a provider, none of them magic. -/
theorem read_loops_hang :
    ¬ Stops Rx.more (onReadBody logFetch) ⟨startContext, firstRead [0, 0], []⟩ ∧
      ¬ Stops Rx.more dReadBody
        ⟨startReader, firstRead [0, 0, 0, 0], (DubboClient.create : DubboClient Unit)⟩ := by
  obtain ⟨hwf, hunread⟩ : (firstRead [0, 0]).Wf 65536 ∧ _ := firstRead_wf (by decide)
  obtain ⟨hwf', hunread'⟩ : (firstRead [0, 0, 0, 0]).Wf 65536 ∧ _ := firstRead_wf (by decide)
  constructor
  · rw [onReadBody_stops_iff hwf, hunread, not_not]
    exact ⟨rfl, by decide, Or.inr ⟨rfl, by decide, by decide⟩⟩
  · rw [dReadBody_stops_iff hwf', hunread', not_not]
    exact ⟨[], [], _, rfl, .nil rfl, ⟨List.nodup_nil, by simp⟩, by decide, by decide⟩

end PyAgent
