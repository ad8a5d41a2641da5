import PyAgent.Bounds
import PyAgent.ProviderAgents
import Mathlib.Algebra.Ring.Nat

/-!
# The consumer agent in Java

What `createServer` of HttpServerVerticle.java writes to a provider agent. It counts the
UTF-16 units of a string and writes its UTF-8 bytes, where the other consumer agents
count the bytes.
-/

namespace PyAgent.Java
set_option autoImplicit false

open Streaming

/-! ## Strings -/

def utf16Units (c : Char) : Nat := if c.val ≤ 0xffff then 1 else 2

structure JString where
  chars : List Char
  deriving DecidableEq

namespace JString

def length (s : JString) : Int := ((s.chars.map utf16Units).sum : Nat)

def utf8 (s : JString) : Bytes := s.chars.flatMap String.utf8EncodeChar

def Ascii (s : JString) : Prop := ∀ c ∈ s.chars, c.val ≤ 127

instance (s : JString) : Decidable s.Ascii := List.decidableBAll _ s.chars

/-- ASCII characters, and only NULs behind a NUL. -/
def Plain (s : JString) : Prop := s.Ascii ∧ s.chars.Pairwise fun a b => a.val = 0 → b.val = 0

instance (s : JString) : Decidable s.Plain := inferInstanceAs (Decidable (_ ∧ _))

variable (s : JString)

theorem utf16Units_le (c : Char) : utf16Units c ≤ c.utf8Size := by
  have hpos := c.utf8Size_pos
  unfold utf16Units
  split
  · exact hpos
  · rename_i hc
    have hfour : c.utf8Size = 4 := Char.utf8Size_eq_four_iff.mpr (UInt32.not_le.mp hc)
    omega

theorem utf16Units_eq_iff (c : Char) : utf16Units c = c.utf8Size ↔ c.val ≤ 127 := by
  rw [← Char.utf8Size_eq_one_iff]
  unfold utf16Units
  split
  · exact eq_comm
  · rename_i hc
    have hfour : c.utf8Size = 4 := Char.utf8Size_eq_four_iff.mpr (UInt32.not_le.mp hc)
    rw [hfour]
    decide

theorem utf8_length : s.utf8.length = (s.chars.map Char.utf8Size).sum := by
  simp only [utf8, List.length_flatMap, String.length_utf8EncodeChar]

theorem sum_utf16Units_le (cs : List Char) :
    (cs.map utf16Units).sum ≤ (cs.map Char.utf8Size).sum := by
  induction cs with
  | nil => exact Nat.le_refl _
  | cons c cs ih => exact Nat.add_le_add (utf16Units_le c) ih

theorem length_le : s.length ≤ s.utf8.length := by
  rw [utf8_length]
  exact Int.ofNat_le.mpr (sum_utf16Units_le s.chars)

/-- The two ways to measure a string agree on ASCII only. -/
theorem length_eq_iff : s.length = s.utf8.length ↔ s.Ascii := by
  have h : ∀ cs : List Char, (cs.map utf16Units).sum = (cs.map Char.utf8Size).sum ↔
      ∀ c ∈ cs, c.val ≤ 127 := by
    intro cs
    induction cs with
    | nil => simp
    | cons c cs ih =>
      have hle := utf16Units_le c
      have hrest := sum_utf16Units_le cs
      rw [List.forall_mem_cons, ← ih, ← utf16Units_eq_iff, List.map_cons, List.map_cons,
        List.sum_cons, List.sum_cons]
      omega
  rw [utf8_length, length, Int.natCast_inj]
  exact h s.chars

variable {s}

theorem utf8EncodeChar_ascii {c : Char} (hc : c.val ≤ 127) :
    String.utf8EncodeChar c = [c.val.toUInt8] :=
  String.utf8EncodeChar_eq_singleton (Char.utf8Size_eq_one_iff.mpr hc)

theorem toUInt8_toNat {c : Char} (hc : c.val ≤ 127) : c.val.toUInt8.toNat = c.toNat := by
  have hle : c.toNat ≤ 127 := hc
  rw [UInt32.toNat_toUInt8]
  exact Nat.mod_eq_of_lt (show c.toNat < 256 by omega)

theorem Ascii.utf8_eq (h : s.Ascii) : s.utf8 = s.chars.map fun c => c.val.toUInt8 := by
  obtain ⟨cs⟩ := s
  induction cs with
  | nil => rfl
  | cons c cs ih =>
    obtain ⟨hc, hcs⟩ := List.forall_mem_cons.mp h
    have hrest : cs.flatMap String.utf8EncodeChar = cs.map fun c => c.val.toUInt8 := ih hcs
    rw [utf8, List.flatMap_cons, List.map_cons, hrest, utf8EncodeChar_ascii hc]
    rfl

theorem Ascii.toUInt8_eq_zero_iff (h : s.Ascii) {c : Char} (hc : c ∈ s.chars) :
    c.val.toUInt8 = 0 ↔ c.val = 0 := by
  rw [← UInt8.toNat_inj, ← UInt32.toNat_inj, toUInt8_toNat (h c hc)]
  rfl

/-- A plain string is one whose length is right and whose bytes `strncpy` copies as they are. -/
theorem plain_iff : s.Plain ↔ s.length = s.utf8.length ∧ nulPadded s.utf8 = s.utf8 := by
  rw [length_eq_iff, Plain, nulPadded_eq_iff]
  apply and_congr_right
  intro h
  rw [h.utf8_eq, List.pairwise_map]
  apply List.Pairwise.iff_of_mem
  intro a b ha hb
  rw [h.toUInt8_eq_zero_iff ha, h.toUInt8_eq_zero_iff hb]

end JString

/-! ## The handler -/

/-- The form attributes of a request and the number drawn for it. The buffers made of them hold
2^31 - 1 bytes at most. -/
structure HttpRequest where
  nextInt : Int
  interface : JString
  method : JString
  parameterTypesString : JString
  parameter : JString
  isInt32 : IsInt32 nextInt
  header_lt : 14 + interface.utf8.length + method.utf8.length +
    parameterTypesString.utf8.length < 2147483648
  buffer_lt : 8 + parameter.utf8.length < 2147483648

namespace HttpRequest

/-- The negative of -2^31 is itself. -/
def apid (r : HttpRequest) : Int := if r.nextInt < 0 then toInt32 (-r.nextInt) else r.nextInt

def buffer (r : HttpRequest) : Bytes :=
  writeInt r.apid ++ writeInt r.parameter.length ++ r.parameter.utf8

def header (r : HttpRequest) : Bytes :=
  [0xab, 0xcd] ++ writeInt r.interface.length ++ r.interface.utf8 ++ writeInt r.method.length ++
    r.method.utf8 ++ writeInt r.parameterTypesString.length ++ r.parameterTypesString.utf8

end HttpRequest

/-- The connection to one provider agent: its entry of `paFirst` and the bytes written to it. -/
structure PaSocket where
  paFirst : Bool := true
  written : Bytes := []
  deriving DecidableEq

def PaSocket.handle (s : PaSocket) (r : HttpRequest) : PaSocket :=
  if s.paFirst then ⟨false, s.written ++ r.header ++ r.buffer⟩
  else { s with written := s.written ++ r.buffer }

theorem PaSocket.foldl_handle (rs : List HttpRequest) (bs : Bytes) :
    rs.foldl PaSocket.handle ⟨false, bs⟩ = ⟨false, bs ++ (rs.map HttpRequest.buffer).flatten⟩ := by
  induction rs generalizing bs with
  | nil => simp
  | cons r rs ih =>
    have hstep : PaSocket.handle ⟨false, bs⟩ r = ⟨false, bs ++ r.buffer⟩ := rfl
    rw [List.foldl_cons, hstep, ih, List.map_cons, List.flatten_cons, List.append_assoc]

/-- All that is written to a new connection. -/
def written (rs : List HttpRequest) : Bytes := (rs.foldl PaSocket.handle {}).written

theorem written_cons (r : HttpRequest) (rs : List HttpRequest) :
    written (r :: rs) = r.header ++ ((r :: rs).map HttpRequest.buffer).flatten := by
  have hstep : PaSocket.handle {} r = ⟨false, r.header ++ r.buffer⟩ := rfl
  rw [written, List.foldl_cons, hstep, PaSocket.foldl_handle, List.map_cons, List.flatten_cons,
    List.append_assoc]

/-! ## What the provider agent makes of it -/

namespace HttpRequest

def key (r : HttpRequest) : ActReuseKey :=
  ⟨r.interface.utf8, r.interface.length, r.method.utf8, r.method.length,
    r.parameterTypesString.utf8, r.parameterTypesString.length⟩

def act (r : HttpRequest) : ActRequest where
  id := r.apid
  pLen := r.parameter.length
  parameter := r.parameter.utf8

/-- The call that was asked for, every string as its UTF-8 bytes. -/
def call (r : HttpRequest) : DubboRequest where
  id := r.apid
  interfaceName := r.interface.utf8
  interfaceLen := r.interface.utf8.length
  methodName := r.method.utf8
  methodLen := r.method.utf8.length
  dubboVersion := ascii "2.0.1"
  dubboVersionLen := 5
  parameterTypesString := r.parameterTypesString.utf8
  ptsLen := r.parameterTypesString.utf8.length
  args := r.parameter.utf8
  argsLen := r.parameter.utf8.length
  twoWay := 1

structure Plain (r : HttpRequest) : Prop where
  interface : r.interface.Plain
  method : r.method.Plain
  parameterTypesString : r.parameterTypesString.Plain
  parameter : r.parameter.Plain

variable {r : HttpRequest}

theorem apid_isInt32 (r : HttpRequest) : IsInt32 r.apid := by
  have h := r.isInt32
  unfold apid
  split
  · unfold IsInt32 toInt32
    omega
  · exact h

theorem header_eq (r : HttpRequest) : r.header = r.key.raw := rfl

/-- The lengths in the header are right. -/
structure Measured (r : HttpRequest) : Prop where
  interface : r.interface.length = r.interface.utf8.length
  method : r.method.length = r.method.utf8.length
  pts : r.parameterTypesString.length = r.parameterTypesString.utf8.length

theorem Measured.sized (h : r.Measured) : r.key.Sized := by
  have hlt := r.header_lt
  refine ⟨h.interface, h.method, h.pts, ?_, ?_, ?_⟩
  all_goals
    simp only [key]
    omega

theorem Plain.measured (h : r.Plain) : r.Measured :=
  ⟨(JString.plain_iff.mp h.interface).1, (JString.plain_iff.mp h.method).1,
    (JString.plain_iff.mp h.parameterTypesString).1⟩

theorem Plain.act_sized (h : r.Plain) : r.act.Sized := by
  have hlt := r.buffer_lt
  refine ⟨r.apid_isInt32, (JString.plain_iff.mp h.parameter).1, ?_⟩
  simp only [act]
  omega

/-- A plain request arrives as it was sent, and no other one does. -/
theorem plain_iff : r.Plain ↔ r.act.under r.key = r.call := by
  simp only [ActRequest.under, act, key, call, DubboRequest.mk.injEq, true_and, and_true]
  constructor
  · intro h
    obtain ⟨hilen, hi⟩ := JString.plain_iff.mp h.interface
    obtain ⟨hmlen, hm⟩ := JString.plain_iff.mp h.method
    obtain ⟨htlen, ht⟩ := JString.plain_iff.mp h.parameterTypesString
    obtain ⟨hplen, hp⟩ := JString.plain_iff.mp h.parameter
    exact ⟨hi, hilen, hm, hmlen, ht, htlen, hp, hplen⟩
  · intro h
    obtain ⟨hi, hilen, hm, hmlen, ht, htlen, hp, hplen⟩ := h
    exact ⟨JString.plain_iff.mpr ⟨hilen, hi⟩, JString.plain_iff.mpr ⟨hmlen, hm⟩,
      JString.plain_iff.mpr ⟨htlen, ht⟩, JString.plain_iff.mpr ⟨hplen, hp⟩⟩

end HttpRequest

/-! ## Lengths that are off -/

/-- How far a connection has got; a request does not change the key. -/
def stageRank : HeaderState ⊕ BodyState → Nat
  | .inl .magic => 0
  | .inl .interfaceLen => 1
  | .inl .interface => 2
  | .inl .methodLen => 3
  | .inl .method => 4
  | .inl .ptsLen => 5
  | .inl .pts => 6
  | .inl .done => 7
  | .inr _ => 8

/-- A context calls with the lengths it has read. -/
structure Sends (c : StreamContext) (r : DubboRequest) : Prop where
  interfaceLen : 2 ≤ stageRank c.stage → r.interfaceLen = c.interfaceLen
  methodLen : 4 ≤ stageRank c.stage → r.methodLen = c.methodLen
  ptsLen : 6 ≤ stageRank c.stage → r.ptsLen = c.ptsLen

theorem sends_of_store {f : Field (HeaderState ⊕ BodyState) StreamContext DubboRequest}
    (hf : f ∈ actWire.fields) {c : StreamContext} (hc : c.Keeps) (hs : actWire.stage c = f.tag)
    (bs : Bytes) {r : DubboRequest} (h : r ∈ f.emit (f.store c bs) ∨ Sends (f.store c bs) r) :
    Sends c r := by
  have hnext := (store_spec hf hc hs bs).1
  simp only [actWire, actFields, headerFields, bodyFields, List.map_cons, List.map_nil,
    List.cons_append, List.nil_append, List.mem_cons, List.not_mem_nil, or_false] at hf hs hnext
  rcases hf with rfl | rfl | rfl | rfl | rfl | rfl | rfl | rfl | rfl | rfl
  case inr.inr.inr.inr.inr.inr.inr.inr.inr =>
    -- the request that is put out has the key's lengths
    rcases h with h | h
    · obtain rfl := List.mem_singleton.mp h
      exact ⟨fun _ => rfl, fun _ => rfl, fun _ => rfl⟩
    · refine ⟨fun _ => h.interfaceLen ?_, fun _ => h.methodLen ?_, fun _ => h.ptsLen ?_⟩
      all_goals
        rw [hnext]
        decide
  all_goals
    have h := h.resolve_left List.not_mem_nil
    refine ⟨fun hrank => ?_, fun hrank => ?_, fun hrank => ?_⟩
    all_goals
      rw [hs] at hrank
      first
      | exact absurd hrank (by decide)
      | exact h.interfaceLen (by rw [hnext]; decide)
      | exact h.methodLen (by rw [hnext]; decide)
      | exact h.ptsLen (by rw [hnext]; decide)

theorem sends_of_steps {c c' : StreamContext} {us us' : Bytes} {os : List DubboRequest}
    (h : actWire.decoder.Steps c us os c' us') (hc : c.Keeps) : ∀ r ∈ os, Sends c r := by
  induction h with
  | refl => exact fun r hr => absurd hr List.not_mem_nil
  | head _ ht _ ih =>
    intro r hr
    obtain ⟨f, hf, hs, _, _, rfl, rfl⟩ := Wire.exists_took ht
    apply sends_of_store hf hc hs
    rcases List.mem_append.mp hr with hr | hr
    · exact Or.inl hr
    · exact Or.inr (ih (store_spec hf hc hs _).2 r hr)

section
variable {c : StreamContext} {rest : Bytes} {os : List DubboRequest} {s' : StreamContext}
  {us' : Bytes}

/-- A string of the header whose length is too small: every call reports that length. -/
theorem length_of_settles {t t' : HeaderState} (setLen : StreamContext → Int → StreamContext)
    (len : StreamContext → Int) (set : StreamContext → Bytes → StreamContext)
    (hf : lenField t setLen ∈ headerFields) (hg : strField t' len set ∈ headerFields)
    (hs : c.stage = .inl t) (hs' : ∀ n, (setLen c n).stage = .inl t')
    (hlen : ∀ n, len (setLen c n) = n) (hkeeps : ∀ n bs, (set (setLen c n) bs).Keeps)
    {s : JString} (hlt : s.utf8.length < 2147483648)
    (h : actWire.decoder.Settles c (writeInt s.length ++ s.utf8 ++ rest) os s' us')
    (hsent : ∀ bs, (∀ r ∈ os, Sends (set (setLen c s.length) bs) r) →
      s.length = s.utf8.length) :
    s.length = s.utf8.length ∧
      actWire.decoder.Settles (set (setLen c s.length) (nulPadded s.utf8)) rest os s' us' := by
  have hle := s.length_le
  have htaken : s.length = (s.utf8.take s.length.toNat).length := by
    rw [List.length_take]
    unfold JString.length at *
    omega
  have hrun := header_string setLen len set hf hg hs hs' hlen htaken (by omega)
  have hcut : writeInt s.length ++ s.utf8 ++ rest =
      writeInt s.length ++ s.utf8.take s.length.toNat ++ (s.utf8.drop s.length.toNat ++ rest) := by
    simp only [List.append_assoc]
    rw [← List.append_assoc (s.utf8.take s.length.toNat), List.take_append_drop]
  rw [hcut] at h
  obtain ⟨os₂, rfl, h₂⟩ := h.after (hrun.whole.append _)
  have heq := hsent _ (sends_of_steps h₂.1 (hkeeps _ _))
  have hall : s.length.toNat = s.utf8.length := by
    rw [heq]
    rfl
  rw [hall, List.take_length, List.drop_length] at h₂
  exact ⟨heq, h₂⟩

open StreamContext in
/-- If the calls have the right lengths, so has the header. -/
theorem measured_of_settles {r : HttpRequest} (block : StreamContext)
    (h : actWire.decoder.Settles (createPaContext block) (r.header ++ rest) os s' us')
    (hr : r.call ∈ os) : r.Measured := by
  have hlt := r.header_lt
  let c₁ := headerMagic.store (createPaContext block) [0xab, 0xcd]
  let c₂ := (c₁.gotInterfaceLen r.interface.length).gotInterface (nulPadded r.interface.utf8)
  let c₃ := (c₂.gotMethodLen r.method.length).gotMethod (nulPadded r.method.utf8)
  have hmagic : actWire.decoder.Run (createPaContext block) [0xab, 0xcd] [] 2 c₁ :=
    Wire.field_run (mem_actFields_header (f := headerMagic) (by simp [headerFields])) rfl _ rfl rfl
  simp only [HttpRequest.header, List.append_assoc] at h
  obtain ⟨os₁, rfl, h₁⟩ := h.after (hmagic.whole.append _)
  rw [List.nil_append, ← List.append_assoc] at h₁
  obtain ⟨hinterface, h₂⟩ := length_of_settles gotInterfaceLen interfaceLen gotInterface
    (by simp [headerFields]) (by simp [headerFields])
    (show c₁.stage = .inl .interfaceLen from rfl) (fun _ => rfl) (fun _ => rfl)
    (fun _ _ _ => rfl) (by omega) h₁
    (fun bs hsends => ((hsends _ hr).interfaceLen (show 2 ≤ 3 by omega)).symm)
  rw [← List.append_assoc] at h₂
  obtain ⟨hmethod, h₃⟩ := length_of_settles gotMethodLen methodLen gotMethod
    (by simp [headerFields]) (by simp [headerFields])
    (show c₂.stage = .inl .methodLen from rfl) (fun _ => rfl) (fun _ => rfl)
    (fun _ _ _ => rfl) (by omega) h₂
    (fun bs hsends => ((hsends _ hr).methodLen (show 4 ≤ 5 by omega)).symm)
  rw [← List.append_assoc] at h₃
  obtain ⟨hpts, _⟩ := length_of_settles gotPtsLen ptsLen gotPts
    (by simp [headerFields]) (by simp [headerFields])
    (show c₃.stage = .inl .ptsLen from rfl) (fun _ => rfl) (fun _ => rfl)
    (fun _ _ hfalse => Bool.noConfusion hfalse) (by omega) h₃
    (fun bs hsends => ((hsends _ hr).ptsLen (show 6 ≤ 8 by omega)).symm)
  exact ⟨hinterface, hmethod, hpts⟩

/-- Behind a right header, a parameter whose length is too small is cut. -/
theorem calls_of_settles {key : ActReuseKey} (hc : c.Holds key) {rs : List HttpRequest}
    (h : actWire.decoder.Settles c (rs.map HttpRequest.buffer).flatten
      (rs.map HttpRequest.call) s' us') :
    ∀ r ∈ rs, r.act.under key = r.call := by
  induction rs generalizing c with
  | nil => exact fun r hr => absurd hr List.not_mem_nil
  | cons r rs ih =>
    have hle := r.parameter.length_le
    have hlt := r.buffer_lt
    let cut : ActRequest :=
      { r.act with parameter := r.parameter.utf8.take r.parameter.length.toNat }
    have hcut : cut.Sized := by
      refine ⟨r.apid_isInt32, ?_, ?_⟩
      · simp only [cut, HttpRequest.act, List.length_take]
        unfold JString.length at *
        omega
      · simp only [cut, List.length_take]
        omega
    obtain ⟨c', hc', hrun⟩ := raw_request_run hc hcut
    have hstream : ((r :: rs).map HttpRequest.buffer).flatten =
        cut.raw ++ (r.parameter.utf8.drop r.parameter.length.toNat ++
          (rs.map HttpRequest.buffer).flatten) := by
      simp only [List.map_cons, List.flatten_cons, HttpRequest.buffer, ActRequest.raw, cut,
        HttpRequest.act, List.append_assoc]
      rw [← List.append_assoc (r.parameter.utf8.take _), List.take_append_drop]
    rw [hstream] at h
    obtain ⟨os₂, hos, h₂⟩ := h.after (hrun.whole.append _)
    obtain ⟨hcall, rfl⟩ := List.cons.inj hos
    have hlen : r.parameter.length = r.parameter.utf8.length :=
      (congrArg DubboRequest.argsLen hcall).symm
    have hall : r.parameter.length.toNat = r.parameter.utf8.length := by
      rw [hlen]
      rfl
    have hwhole : cut = r.act := by
      simp only [cut, hall, List.take_length]
      rfl
    rw [hall, List.drop_length] at h₂
    rw [hwhole] at hcall
    intro r' hr'
    rcases List.mem_cons.mp hr' with rfl | hr'
    · exact hcall.symm
    · exact ih hc' h₂ r' hr'

end

/-! ## Framing -/

/-- Whatever pieces the provider agent reads of a connection with these requests, it goes on; and
with all that can be delivered of them it has called for exactly the requests that were handled. -/
def Framed (S : Nat) (rs : List HttpRequest) : Prop :=
  ∀ (m : BufStore) (block : StreamContext), m.Wf (toUInt32 S) →
    (∀ es, (accepted m block []).fits (paReadCbs logFetch id) S es = true →
      (es.map Prod.snd).flatten <+: written rs →
      ((accepted m block []).run (paReadCbs logFetch id) S es).isSome) ∧
    (∃ es k, (accepted m block []).Delivers (paReadCbs logFetch id) S (written rs) es k) ∧
    ∀ es k, (accepted m block []).Delivers (paReadCbs logFetch id) S (written rs) es k →
      k.env = rs.map HttpRequest.call ∧ k.unread = []

/-- No field of the header or of the body is longer than a buffer. -/
structure HttpRequest.Fits (cap : Nat) (r : HttpRequest) : Prop where
  header : r.key.width ≤ cap
  buffer : r.act.width ≤ cap

theorem written_eq_actStream {r : HttpRequest} {rs : List HttpRequest} :
    written (r :: rs) = actStream r.key ((r :: rs).map HttpRequest.act) := by
  rw [written_cons, r.header_eq, actStream, List.map_map]
  rfl

section
variable {rs : List HttpRequest}

theorem settles_of_plain {r : HttpRequest} (hkey : ∀ r' ∈ r :: rs, r'.key = r.key)
    (hplain : ∀ r' ∈ r :: rs, r'.Plain) (block : StreamContext) :
    (∃ s', actWire.decoder.Settles (createPaContext block) (written (r :: rs))
      ((r :: rs).map HttpRequest.call) s' []) ∧
    ∀ ps, ps <+: written (r :: rs) →
      ∃ os s' us', actWire.decoder.Settles (createPaContext block) ps os s' us' := by
  let F := (rawRequestFraming r.key).comap HttpRequest.act
  have hgood : ∀ r' ∈ r :: rs, F.good r' := fun r' hr' => (hplain r' hr').act_sized
  have hout : (r :: rs).map F.out = (r :: rs).map HttpRequest.call := by
    apply List.map_congr_left
    intro r' hr'
    have h := HttpRequest.plain_iff.mp (hplain r' hr')
    rw [hkey r' hr'] at h
    exact h
  obtain ⟨c, hc, hrun⟩ := raw_key_run (hplain r List.mem_cons_self).measured.sized block
  rw [written_cons, r.header_eq]
  constructor
  · obtain ⟨s', hs', hsteps⟩ := F.whole hgood hc
    rw [hout] at hsteps
    exact ⟨s', (hrun.whole.append _).trans hsteps, F.need_pos s' hs'⟩
  · intro ps hps
    obtain ⟨s', us', h⟩ := F.settle_behind hgood hrun.toPiece hc hps
    exact ⟨_, s', us', h⟩

variable {S : Nat} (hS : 3 ≤ S) (hcap : toUInt32 S < 2147483648)
include hS hcap

theorem framed_of_settles
    (hall : ∀ block, ∃ s', actWire.decoder.Settles (createPaContext block) (written rs)
      (rs.map HttpRequest.call) s' [])
    (hstarts : ∀ block ps, ps <+: written rs →
      ∃ os s' us', actWire.decoder.Settles (createPaContext block) ps os s' us')
    (hwithin : ∀ block, written rs = [] ∨ 0 < toUInt32 S ∧
      actWire.decoder.Within (toUInt32 S) (createPaContext block) (written rs)) :
    Framed S rs := by
  intro m block hm
  have hgood := accepted_good hm block ([] : List DubboRequest)
  have hwaits := accepted_waits m block ([] : List DubboRequest)
  have hsettles : ∀ ps, ps <+: written rs → ∃ os s' us' log,
      actWire.decoder.Settles (createPaContext block) ps os s' us' ∧
        os.foldlM logFetch [] = some log := by
    intro ps hps
    obtain ⟨os, s', us', h⟩ := hstarts block ps hps
    exact ⟨os, s', us', _, h, foldlM_logFetch _ _⟩
  refine ⟨?_, Link.exists_delivers paReadCbs_implements hS hcap hgood hwaits hsettles, ?_⟩
  · intro es hfits hprefix
    obtain ⟨k, _, hrun, _⟩ := Link.run_settles paReadCbs_implements hS hcap hgood hwaits hfits
      fun ps hps => hsettles ps (hps.trans hprefix)
    rw [hrun]
    rfl
  · intro es k h
    have hstream : (es.map Prod.snd).flatten = written rs := by
      rcases hwithin block with hnil | ⟨hpos, hwithin⟩
      · have hprefix := h.isPrefix
        rw [hnil] at hprefix ⊢
        exact List.prefix_nil.mp hprefix
      · exact h.whole paReadCbs_implements hS hcap hgood hwaits rfl hwithin hpos
    obtain ⟨_, os, hs, henv⟩ := Link.settles_of_run paReadCbs_implements hS hcap hgood hwaits h.run
    obtain ⟨s', hs'⟩ := hall block
    rw [hstream] at hs
    obtain ⟨rfl, _, hunread⟩ := hs.unique hs'
    rw [foldlM_logFetch] at henv
    exact ⟨(Option.some.inj henv).symm, hunread⟩

theorem framed_of_plain {r : HttpRequest} (hkey : ∀ r' ∈ r :: rs, r'.key = r.key)
    (hplain : ∀ r' ∈ r :: rs, r'.Plain) (hfits : ∀ r' ∈ r :: rs, r'.Fits (toUInt32 S)) :
    Framed S (r :: rs) := by
  have hsettles := settles_of_plain hkey hplain
  have hwidth : 4 ≤ r.key.width := Nat.le_max_left _ _
  have hheader := (hfits r List.mem_cons_self).header
  refine framed_of_settles hS hcap (fun block => (hsettles block).1)
    (fun block => (hsettles block).2) fun block => Or.inr ⟨by omega, ?_⟩
  rw [written_eq_actStream]
  apply (within_iff block (hplain r List.mem_cons_self).measured.sized ?_ (toUInt32 S)).mpr
  · refine ⟨hheader, ?_⟩
    intro a ha
    obtain ⟨r', hr', rfl⟩ := List.mem_map.mp ha
    exact (hfits r' hr').buffer
  · intro a ha
    obtain ⟨r', hr', rfl⟩ := List.mem_map.mp ha
    exact (hplain r' hr').act_sized

theorem framed_nil : Framed S [] := by
  have hnil : ∀ block, actWire.decoder.Settles (createPaContext block) [] []
      (createPaContext block) [] :=
    fun block => ⟨.refl _ _, accepted_waits ⟨[], []⟩ block ()⟩
  refine framed_of_settles hS hcap (fun block => ⟨_, hnil block⟩) ?_ fun _ => Or.inl rfl
  intro block ps hps
  obtain rfl := List.prefix_nil.mp hps
  exact ⟨_, _, _, hnil block⟩

/-- The calls are made only if the whole of the stream can be delivered, into buffers that no field
of it exceeds. -/
theorem settles_of_framed {r : HttpRequest} (h : Framed S (r :: rs)) (block : StreamContext) :
    (∃ s', actWire.decoder.Settles (createPaContext block) (written (r :: rs))
      ((r :: rs).map HttpRequest.call) s' []) ∧
    actWire.decoder.Within (toUInt32 S) (createPaContext block) (written (r :: rs)) := by
  have hm := BufStore.wf_empty (toUInt32 S)
  have hgood := accepted_good hm block ([] : List DubboRequest)
  have hwaits := accepted_waits ⟨[], []⟩ block ([] : List DubboRequest)
  obtain ⟨_, ⟨es, k, hdelivers⟩, hcalls⟩ := h ⟨[], []⟩ block hm
  obtain ⟨henv, hunread⟩ := hcalls es k hdelivers
  obtain ⟨hgood', os, hs, hlog⟩ := Link.settles_of_run paReadCbs_implements hS hcap hgood hwaits
    hdelivers.run
  rw [foldlM_logFetch] at hlog
  obtain rfl : os = (r :: rs).map HttpRequest.call := (Option.some.inj hlog).trans henv
  have hneed : ∀ os₁ s₁ us₁, actWire.decoder.Steps (createPaContext block)
      (es.map Prod.snd).flatten os₁ s₁ us₁ → us₁ ≠ [] →
        actWire.decoder.need s₁ ≤ toUInt32 S := by
    intro os₁ s₁ us₁ hsteps hne
    apply Link.need_le_of_run paReadCbs_implements hS hcap hgood hwaits hdelivers.run hsteps
    rw [hunread]
    exact List.length_pos_of_ne_nil hne
  have hne : (es.map Prod.snd).flatten ≠ [] := by
    intro hnil
    have hnothing : actWire.decoder.Steps (createPaContext block) []
        ((r :: rs).map HttpRequest.call) k.ctx k.unread := by
      have hsteps := hs.1
      rw [hnil] at hsteps
      exact hsteps
    cases (Decoder.Waits.stuck hwaits hnothing).1
  have hstream : (es.map Prod.snd).flatten = written (r :: rs) := by
    rcases hdelivers.ends with hends | ⟨tie, hfull⟩
    · exact hends
    · -- a buffer that is full and holds nothing has no room for a magic number either
      obtain ⟨n, hn, _, hroom⟩ := Link.room_spec paReadCbs_implements hS hgood' tie
      obtain rfl : n = 0 := Option.some.inj (hn.symm.trans hfull)
      have hfirst := hneed [] _ _ (.refl _ _) hne
      have hpos : 0 < actWire.decoder.need (createPaContext block) := hwaits
      rw [hunread, List.length_nil] at hroom
      omega
  rw [hstream, hunread] at hs
  refine ⟨⟨k.ctx, hs⟩, ?_⟩
  intro os₁ s₁ us₁ hsteps hne₁
  rw [← hstream] at hsteps
  exact hneed os₁ s₁ us₁ hsteps hne₁

theorem plain_of_framed {r : HttpRequest} (hkey : ∀ r' ∈ r :: rs, r'.key = r.key)
    (h : Framed S (r :: rs)) : ∀ r' ∈ r :: rs, r'.Plain ∧ r'.Fits (toUInt32 S) := by
  let block : StreamContext :=
    ⟨.magic, false, .id, [], 0, [], 0, [], 0, { id := 0, pLen := 0, parameter := [] }⟩
  obtain ⟨⟨s', hs⟩, hwithin⟩ := settles_of_framed hS hcap h block
  rw [written_cons] at hs
  have hmeasured := measured_of_settles block hs (List.mem_map_of_mem List.mem_cons_self)
  obtain ⟨c, hc, hrun⟩ := raw_key_run hmeasured.sized block
  obtain ⟨os₂, hos, h₂⟩ := hs.after (hrun.whole.append _)
  obtain rfl : os₂ = (r :: rs).map HttpRequest.call := hos.symm
  have hplain : ∀ r' ∈ r :: rs, r'.Plain := by
    intro r' hr'
    have hcalls := calls_of_settles hc h₂ r' hr'
    rw [← hkey r' hr'] at hcalls
    exact HttpRequest.plain_iff.mpr hcalls
  have hsized : ∀ a ∈ (r :: rs).map HttpRequest.act, a.Sized := by
    intro a ha
    obtain ⟨r', hr', rfl⟩ := List.mem_map.mp ha
    exact (hplain r' hr').act_sized
  rw [written_eq_actStream, within_iff block hmeasured.sized hsized] at hwithin
  intro r' hr'
  refine ⟨hplain r' hr', ?_, hwithin.2 _ (List.mem_map_of_mem hr')⟩
  rw [hkey r' hr']
  exact hwithin.1

/-- Requests with one key in common arrive exactly when every string of theirs is plain and no
longer than a buffer of the provider agent. -/
theorem framed_iff {interface method pts : JString} (hcommon : ∀ r ∈ rs, r.interface = interface ∧
    r.method = method ∧ r.parameterTypesString = pts) :
    Framed S rs ↔ ∀ r ∈ rs, r.Plain ∧ r.Fits (toUInt32 S) := by
  rcases rs with _ | ⟨r, rs⟩
  · exact iff_of_true (framed_nil hS hcap) (by simp)
  · have hkey : ∀ r' ∈ r :: rs, r'.key = r.key := by
      intro r' hr'
      obtain ⟨hi, hm, ht⟩ := hcommon r List.mem_cons_self
      obtain ⟨hi', hm', ht'⟩ := hcommon r' hr'
      simp only [HttpRequest.key, hi, hm, ht, hi', hm', ht']
    exact ⟨plain_of_framed hS hcap hkey, fun h => framed_of_plain hS hcap hkey
      (fun r' hr' => (h r' hr').1) fun r' hr' => (h r' hr').2⟩

end

/-- Two calls of one method, through the whole theorem. -/
theorem framed_iff_two_calls :
    let call (n : Int) (hn : IsInt32 n) : HttpRequest :=
      ⟨n, ⟨['I']⟩, ⟨['h', 'a', 's', 'h']⟩, ⟨['S']⟩, ⟨['a']⟩, hn, by decide, by decide⟩
    Framed 65536 [call 7 (by decide), call (-8) (by decide)] := by
  intro call
  have hkey : JString.Plain ⟨['I']⟩ ∧ JString.Plain ⟨['h', 'a', 's', 'h']⟩ ∧
      JString.Plain ⟨['S']⟩ ∧ JString.Plain ⟨['a']⟩ := by decide
  have hplain : ∀ n hn, (call n hn).Plain :=
    fun _ _ => ⟨hkey.1, hkey.2.1, hkey.2.2.1, hkey.2.2.2⟩
  have hcap : toUInt32 (65536 : Nat) = 65536 := toUInt32_of_lt (by omega)
  have hfits : ∀ n hn, (call n hn).Fits 65536 := by
    intro n hn
    have hheader : (call n hn).key.width = 4 := rfl
    have hbuffer : (call n hn).act.width = 4 := rfl
    exact ⟨by omega, by omega⟩
  have hcommon : ∀ r ∈ [call 7 (by decide), call (-8) (by decide)], r.interface = ⟨['I']⟩ ∧
      r.method = ⟨['h', 'a', 's', 'h']⟩ ∧ r.parameterTypesString = ⟨['S']⟩ := by
    intro r hr
    simp only [List.mem_cons, List.not_mem_nil, or_false] at hr
    rcases hr with rfl | rfl <;> exact ⟨rfl, rfl, rfl⟩
  apply (framed_iff (by omega) (by omega) hcommon).mpr
  intro r hr
  simp only [List.mem_cons, List.not_mem_nil, or_false] at hr
  rw [hcap]
  rcases hr with rfl | rfl <;> exact ⟨hplain _ _, hfits _ _⟩

/-- One UTF-16 unit, two bytes. -/
theorem accent_misframed :
    ¬ Framed 65536 [⟨7, ⟨['I']⟩, ⟨['h', 'a', 's', 'h']⟩, ⟨['S']⟩, ⟨['\u00e9']⟩, by decide,
      by decide, by decide⟩] := by
  intro h
  have hcap : toUInt32 (65536 : Nat) = 65536 := toUInt32_of_lt (by omega)
  obtain ⟨hplain, _⟩ := plain_of_framed (by omega) (by omega)
    (fun r hr => by rw [List.mem_singleton.mp hr]) h _ (List.mem_singleton.mpr rfl)
  exact absurd hplain.parameter.1 (by decide)

end PyAgent.Java
