import PyAgent.Form
import PyAgent.Python
import Mathlib.Data.Bool.AllAny
import Mathlib.Data.List.Induction

/-!
# The two form readers

`_h_on_body` of ca.cc finds the values of a form by hash and copies them, the three of
the key through `strn_urlcpy`; ca.py has tornado parse the form. Clients encode names
and values in many ways, and the two readers are compared on every one of them.
-/

namespace PyAgent
set_option autoImplicit false

/-! ## Encodings of a client -/

/-- What a client may leave as it is. -/
def Unreserved (c : UInt8) : Prop :=
  (48 ≤ c.toNat ∧ c.toNat ≤ 57) ∨ (65 ≤ c.toNat ∧ c.toNat ≤ 90) ∨
    (97 ≤ c.toNat ∧ c.toNat ≤ 122) ∨ c ∈ ascii "-_.~*!'()"

instance (c : UInt8) : Decidable (Unreserved c) := inferInstanceAs (Decidable (_ ∨ _))

/-- The encodings of a string in a form: any byte may be escaped, a space may be a plus. -/
inductive UrlEncodes : Bytes → Bytes → Prop where
  | nil : UrlEncodes [] []
  | literal {c : UInt8} {s e : Bytes} : Unreserved c → UrlEncodes s e → UrlEncodes (c :: s) (c :: e)
  | space {s e : Bytes} : UrlEncodes s e → UrlEncodes (32 :: s) (43 :: e)
  | escape {x y : UInt8} {hi lo : Nat} {s e : Bytes} : hex2int x = some hi → hex2int y = some lo →
      UrlEncodes s e → UrlEncodes (UInt8.ofNat (hi * 16 + lo) :: s) (37 :: x :: y :: e)

/-- Here a plus stands for itself. -/
inductive PercentEncodes : Bytes → Bytes → Prop where
  | nil : PercentEncodes [] []
  | literal {c : UInt8} {s e : Bytes} : c ≠ 37 → PercentEncodes s e →
      PercentEncodes (c :: s) (c :: e)
  | escape {x y : UInt8} {hi lo : Nat} {s e : Bytes} : hex2int x = some hi → hex2int y = some lo →
      PercentEncodes s e → PercentEncodes (UInt8.ofNat (hi * 16 + lo) :: s) (37 :: x :: y :: e)

theorem unreserved_of_hex {x : UInt8} {n : Nat} (h : hex2int x = some n) : Unreserved x := by
  unfold hex2int at h
  unfold Unreserved
  split at h
  · exact Or.inl ‹_›
  · split at h
    · exact Or.inr (Or.inr (Or.inl (by omega)))
    · split at h
      · exact Or.inr (Or.inl (by omega))
      · cases h

theorem Unreserved.ne {c : UInt8} (h : Unreserved c) : c ≠ 37 ∧ c ≠ 43 := by
  constructor
  all_goals
    rintro rfl
    exact absurd h (by decide)

namespace UrlEncodes
variable {s e : Bytes}

theorem mem (h : UrlEncodes s e) {c : UInt8} (hc : c ∈ e) : Unreserved c ∨ c = 43 ∨ c = 37 := by
  induction h with
  | nil => exact absurd hc List.not_mem_nil
  | literal hlit _ ih =>
    rcases List.mem_cons.mp hc with rfl | hc
    · exact Or.inl hlit
    · exact ih hc
  | space _ ih =>
    rcases List.mem_cons.mp hc with rfl | hc
    · exact Or.inr (Or.inl rfl)
    · exact ih hc
  | escape hx hy _ ih =>
    simp only [List.mem_cons] at hc
    rcases hc with rfl | rfl | rfl | hc
    · exact Or.inr (Or.inr rfl)
    · exact Or.inl (unreserved_of_hex hx)
    · exact Or.inl (unreserved_of_hex hy)
    · exact ih hc

theorem not_mem (h : UrlEncodes s e) {c : UInt8}
    (hc : ¬ (Unreserved c ∨ c = 43 ∨ c = 37)) : c ∉ e :=
  fun hmem => hc (h.mem hmem)

/-- Behind an encoding there is a string to which it is spelt without pluses for spaces. -/
theorem exists_percent (h : UrlEncodes s e) : ∃ t, PercentEncodes t e := by
  induction h with
  | nil => exact ⟨[], .nil⟩
  | literal hlit _ ih =>
    obtain ⟨t, ht⟩ := ih
    exact ⟨_, .literal hlit.ne.1 ht⟩
  | space _ ih =>
    obtain ⟨t, ht⟩ := ih
    exact ⟨_, .literal (by decide) ht⟩
  | escape hx hy _ ih =>
    obtain ⟨t, ht⟩ := ih
    exact ⟨_, .escape hx hy ht⟩

end UrlEncodes

/-! ## strn_urlcpy -/

theorem strnUrlcpy_cons {c : UInt8} (hc : c ≠ 37) (src : Bytes) :
    strnUrlcpy (c :: src) = (strnUrlcpy src).map (c :: ·) := by
  rcases src with _ | ⟨x, _ | ⟨y, src⟩⟩
  · rfl
  · rfl
  · rw [strnUrlcpy, if_neg hc]

theorem strnUrlcpy_escape {x y : UInt8} {hi lo : Nat} (hx : hex2int x = some hi)
    (hy : hex2int y = some lo) (src : Bytes) : strnUrlcpy (37 :: x :: y :: src) =
      (strnUrlcpy src).map (UInt8.ofNat (hi * 16 + lo) :: ·) := by
  rw [strnUrlcpy, if_pos rfl, hx, hy]
  cases strnUrlcpy src <;> rfl

theorem PercentEncodes.strnUrlcpy_eq {t e : Bytes} (h : PercentEncodes t e) :
    strnUrlcpy e = some t := by
  induction h with
  | nil => rfl
  | literal hc _ ih => rw [strnUrlcpy_cons hc, ih, Option.map_some]
  | escape hx hy _ ih => rw [strnUrlcpy_escape hx hy, ih, Option.map_some]

/-- `strn_urlcpy` undoes percent-encoding and nothing else. -/
theorem UrlEncodes.strnUrlcpy_iff {s e t : Bytes} (h : UrlEncodes s e) :
    strnUrlcpy e = some t ↔ PercentEncodes t e := by
  constructor
  · intro hcopy
    obtain ⟨t', ht'⟩ := h.exists_percent
    obtain rfl : t' = t := Option.some.inj (ht'.strnUrlcpy_eq.symm.trans hcopy)
    exact ht'
  · exact PercentEncodes.strnUrlcpy_eq

theorem UrlEncodes.strnUrlcpy_self_iff {s e : Bytes} (h : UrlEncodes s e) :
    strnUrlcpy e = some s ↔ 43 ∉ e := by
  have hcons : ∀ (c : UInt8) (src s : Bytes),
      (strnUrlcpy src).map (c :: ·) = some (c :: s) ↔ strnUrlcpy src = some s := by
    intro c src s
    cases strnUrlcpy src <;> simp
  induction h with
  | nil => exact iff_of_true rfl List.not_mem_nil
  | @literal c s e hlit _ ih =>
    rw [strnUrlcpy_cons hlit.ne.1, hcons, List.mem_cons, not_or]
    exact ih.trans (and_iff_right hlit.ne.2.symm).symm
  | @space s e _ _ =>
    rw [strnUrlcpy_cons (by decide)]
    refine iff_of_false ?_ (fun h => h List.mem_cons_self)
    cases strnUrlcpy e <;> simp
  | @escape x y hi lo s e hx hy _ ih =>
    have hx' := (unreserved_of_hex hx).ne.2.symm
    have hy' := (unreserved_of_hex hy).ne.2.symm
    rw [strnUrlcpy_escape hx hy, hcons]
    apply ih.trans
    simp only [List.mem_cons, not_or]
    constructor
    · exact fun h => ⟨by decide, hx', hy', h⟩
    · exact fun h => h.2.2.2

theorem UrlEncodes.percent_iff {s e : Bytes} (h : UrlEncodes s e) :
    PercentEncodes s e ↔ 43 ∉ e :=
  h.strnUrlcpy_iff.symm.trans h.strnUrlcpy_self_iff

/-! ## Bodies -/

/-- A field of a form as the client encodes it; its value is an ASCII string. -/
structure EncodedField where
  name : Bytes
  value : Bytes
  encName : Bytes
  encValue : Bytes
  name_enc : UrlEncodes name encName
  value_enc : UrlEncodes value encValue
  ascii : ∀ c ∈ value, c.toNat < 128

def EncodedField.pair (f : EncodedField) : Bytes × Bytes := (f.encName, f.encValue)

def formBody (fields : List EncodedField) : Bytes := encodeForm (fields.map EncodedField.pair)

/-- `f` is the only field of its name. -/
def Carries (fields : List EncodedField) (name : Bytes) (f : EncodedField) : Prop :=
  fields.filter (fun f => f.name = name) = [f]

/-- What a consumer agent sends to the provider agent, lengths and id apart. -/
structure ActFields where
  interface : Bytes
  method : Bytes
  pts : Bytes
  parameter : Bytes
  deriving DecidableEq

/-- The fields of the first request of a connection, as the encoders of pa_client.cc copy them. -/
def wireFields (h : CaHashes) (data : Bytes) : Option ActFields :=
  (readForm h data).bind fun f =>
    f.reuseKey.map fun key =>
      ⟨key.padded.interface, key.padded.method, key.padded.pts, nulPadded f.parameter⟩

theorem EncodedField.separators (f : EncodedField) :
    61 ∉ f.encName ∧ 38 ∉ f.encName ++ 61 :: f.encValue ∧ 59 ∉ f.encName ++ 61 :: f.encValue := by
  have hname : ∀ c : UInt8, ¬ (Unreserved c ∨ c = 43 ∨ c = 37) → c ∉ f.encName :=
    fun _ hc => f.name_enc.not_mem hc
  have hvalue : ∀ c : UInt8, ¬ (Unreserved c ∨ c = 43 ∨ c = 37) → c ∉ f.encValue :=
    fun _ hc => f.value_enc.not_mem hc
  have hpair : ∀ c : UInt8, ¬ (Unreserved c ∨ c = 43 ∨ c = 37) → c ≠ 61 →
      c ∉ f.encName ++ 61 :: f.encValue := by
    intro c hc hne
    simp only [List.mem_append, List.mem_cons, not_or]
    exact ⟨hname c hc, hne, hvalue c hc⟩
  exact ⟨hname 61 (by decide), hpair 38 (by decide) (by decide), hpair 59 (by decide) (by decide)⟩

/-! ## What ca.cc reads -/

/-- The last field whose name `_h_on_body` takes for `v`. -/
def CaHashes.lastFiled (h : CaHashes) (fields : List EncodedField) (v : FormField) :
    Option EncodedField :=
  (fields.filter fun f => h.readV f.encName = v).getLast?

theorem foldl_assign_eq (h : CaHashes) (fields : List EncodedField) (v : FormField) :
    (fields.map EncodedField.pair).foldl h.assign (fun _ => none) v =
      (h.lastFiled fields v).map EncodedField.encValue := by
  induction fields using List.reverseRecOn with
  | nil => rfl
  | append_singleton fields f ih =>
    rw [List.map_append, List.foldl_append, CaHashes.lastFiled, List.filter_append]
    by_cases hv : h.readV f.encName = v
    · subst hv
      simp [CaHashes.assign, EncodedField.pair]
    · have hother : h.assign ((fields.map EncodedField.pair).foldl h.assign fun _ => none)
          f.pair v = (fields.map EncodedField.pair).foldl h.assign (fun _ => none) v :=
        Function.update_of_ne (Ne.symm hv) _ _
      simp only [List.map_cons, List.map_nil, List.foldl_cons, List.foldl_nil, hother, ih, hv,
        List.filter_cons, List.filter_nil, decide_false, Bool.false_eq_true, if_false,
        List.append_nil, CaHashes.lastFiled]

theorem readForm_none (h : CaHashes) {fields : List (Bytes × Bytes)}
    (hfields : ∀ f ∈ fields, 61 ∉ f.1 ∧ 38 ∉ f.2) {v : FormField}
    (hv : fields.foldl h.assign (fun _ => none) v = none) :
    readForm h (encodeForm fields) = none := by
  obtain ⟨spans, hspans, hfound⟩ := scan_encodeForm h hfields
  have hnone : spans v = none := by
    have hmap := (hfound v).1
    rw [hv] at hmap
    exact Option.map_eq_none_iff.mp hmap
  rw [readForm, hspans, Option.bind_some]
  cases v with
  | interface => rw [hnone]
  | method =>
    rw [hnone]
    cases spans .interface <;> rfl
  | pts =>
    rw [hnone]
    cases spans .interface <;> cases spans .method <;> rfl
  | parameter =>
    rw [hnone]
    cases spans .interface <;> cases spans .method <;> cases spans .pts <;> rfl

/-- A field whose encoding spells a string once its escapes are decoded and what follows a NUL has
been overwritten. -/
def Spells (filed : Option EncodedField) (x : Bytes) : Prop :=
  ∃ f t, filed = some f ∧ PercentEncodes t f.encValue ∧ nulPadded t = x

theorem PercentEncodes.unique {s s' e : Bytes} (h : PercentEncodes s e)
    (h' : PercentEncodes s' e) : s = s' :=
  Option.some.inj (h.strnUrlcpy_eq.symm.trans h'.strnUrlcpy_eq)

theorem spells_iff {f : EncodedField} {t : Bytes} (ht : PercentEncodes t f.encValue) (x : Bytes) :
    Spells (some f) x ↔ nulPadded t = x := by
  constructor
  · rintro ⟨f', t', hf, ht', rfl⟩
    obtain rfl := Option.some.inj hf
    rw [ht.unique ht']
  · exact fun hx => ⟨f, t, rfl, ht, hx⟩

/-- What is on the wire, in terms of the fields that are filed last. -/
theorem wireFields_iff (h : CaHashes) (fields : List EncodedField) (x : ActFields) :
    wireFields h (formBody fields) = some x ↔ Spells (h.lastFiled fields .interface) x.interface ∧
      Spells (h.lastFiled fields .method) x.method ∧ Spells (h.lastFiled fields .pts) x.pts ∧
        ∃ f, h.lastFiled fields .parameter = some f ∧ f.encValue = x.parameter := by
  have hfields : ∀ p ∈ fields.map EncodedField.pair, 61 ∉ p.1 ∧ 38 ∉ p.2 := by
    intro p hp
    obtain ⟨f, _, rfl⟩ := List.mem_map.mp hp
    obtain ⟨hname, hpair, _⟩ := f.separators
    exact ⟨hname, fun hmem => hpair (List.mem_append_right _ (List.mem_cons_of_mem _ hmem))⟩
  have hassign := foldl_assign_eq h fields
  have hnone : ∀ v, h.lastFiled fields v = none → wireFields h (formBody fields) = none := by
    intro v hv
    rw [wireFields, formBody, readForm_none h hfields (v := v) (by rw [hassign, hv]; rfl)]
    rfl
  cases hi : h.lastFiled fields .interface with
  | none => simp [hnone _ hi, Spells]
  | some i =>
    cases hm : h.lastFiled fields .method with
    | none => simp [hnone _ hm, Spells]
    | some m =>
      cases ht : h.lastFiled fields .pts with
      | none => simp [hnone _ ht, Spells]
      | some t =>
        cases hp : h.lastFiled fields .parameter with
        | none => simp [hnone _ hp]
        | some p =>
          have hread := readForm_encodeForm h hfields
            (by rw [hassign, hi, Option.map_some]) (by rw [hassign, hm, Option.map_some])
            (by rw [hassign, ht, Option.map_some]) (by rw [hassign, hp, Option.map_some])
          have hliteral : nulPadded p.encValue = p.encValue :=
            nulPadded_of_no_nul (p.value_enc.not_mem (by decide))
          obtain ⟨i', hi'⟩ := i.value_enc.exists_percent
          obtain ⟨m', hm'⟩ := m.value_enc.exists_percent
          obtain ⟨t', ht'⟩ := t.value_enc.exists_percent
          have hwire : wireFields h (formBody fields) =
              some ⟨nulPadded i', nulPadded m', nulPadded t', p.encValue⟩ := by
            simp only [wireFields, formBody, hread, Option.bind_some, Form.reuseKey,
              hi'.strnUrlcpy_eq, hm'.strnUrlcpy_eq, ht'.strnUrlcpy_eq, Option.map_some,
              ActReuseKey.padded, hliteral]
          obtain ⟨x₁, x₂, x₃, x₄⟩ := x
          rw [hwire, spells_iff hi', spells_iff hm', spells_iff ht']
          simp only [Option.some.injEq, ActFields.mk.injEq, exists_eq_left']

/-! ## What ca.py reads -/

namespace Python

/-- `urllib.unquote` -/
def unquote : Bytes → Bytes
  | [] => []
  | c :: x :: y :: s =>
    if c = 37 then
      match hex2int x, hex2int y with
      | some hi, some lo => UInt8.ofNat (hi * 16 + lo) :: unquote s
      | _, _ => c :: unquote (x :: y :: s)
    else c :: unquote (x :: y :: s)
  | c :: s => c :: unquote s

def unquotePlus (s : Bytes) : Bytes := unquote (s.map fun c => if c = 43 then 32 else c)

/-- `name_value.split('=', 1)`; a field without a `=` has a blank value. -/
def parsePair (nameValue : Bytes) : Option (Bytes × Bytes) :=
  if nameValue = [] then none
  else some (unquotePlus (nameValue.takeWhile (· != 61)),
    unquotePlus ((nameValue.dropWhile (· != 61)).drop 1))

/-- `urlparse.parse_qsl` with blank values kept. -/
def parseQsl (qs : Bytes) : List (Bytes × Bytes) :=
  ((qs.splitOn 38).flatMap (List.splitOn 59)).filterMap parsePair

/-- The last of the values of that name. Tornado also strips it, which is left out here; an ASCII
string is its own UTF-8. -/
def getArgument (body name : Bytes) : Option Bytes :=
  ((parseQsl body).filter fun p => p.1 = name).getLast?.map Prod.snd

/-- The fields of the request that `IndexHandler.post` makes. -/
def post (body : Bytes) : Option ActFields := do
  let interface ← getArgument body (ascii "interface")
  let method ← getArgument body (ascii "method")
  let parameterTypesString ← getArgument body (ascii "parameterTypesString")
  let parameter ← getArgument body (ascii "parameter")
  some ⟨interface, method, parameterTypesString, parameter⟩

theorem unquote_cons {c : UInt8} (hc : c ≠ 37) (s : Bytes) : unquote (c :: s) = c :: unquote s := by
  rcases s with _ | ⟨x, _ | ⟨y, s⟩⟩
  · rfl
  · rfl
  · rw [unquote, if_neg hc]

theorem unquotePlus_eq {s e : Bytes} (h : UrlEncodes s e) : unquotePlus e = s := by
  unfold unquotePlus
  induction h with
  | nil => rfl
  | literal hlit _ ih => rw [List.map_cons, if_neg hlit.ne.2, unquote_cons hlit.ne.1, ih]
  | space _ ih => rw [List.map_cons, if_pos rfl, unquote_cons (by decide), ih]
  | escape hx hy _ ih =>
    rw [List.map_cons, List.map_cons, List.map_cons, if_neg (unreserved_of_hex hx).ne.2,
      if_neg (unreserved_of_hex hy).ne.2, if_neg (by decide), unquote, if_pos rfl, hx, hy, ih]

theorem parsePair_pair (f : EncodedField) :
    parsePair (f.encName ++ 61 :: f.encValue) = some (f.name, f.value) := by
  have hname : f.encName.all (· != 61) = true := by
    rw [List.all_eq_true]
    intro c hc
    have hne : c ≠ 61 := by
      rintro rfl
      exact f.separators.1 hc
    exact bne_iff_ne.mpr hne
  have htake : (f.encName ++ 61 :: f.encValue).takeWhile (· != 61) = f.encName := by
    rw [List.takeWhile_append_of_pos (List.all_eq_true.mp hname)]
    exact List.append_nil _
  have hdrop : (f.encName ++ 61 :: f.encValue).dropWhile (· != 61) = 61 :: f.encValue := by
    rw [List.dropWhile_append_of_pos (List.all_eq_true.mp hname)]
    rfl
  rw [parsePair, if_neg (by simp), htake, hdrop, List.drop_one, List.tail_cons,
    unquotePlus_eq f.name_enc, unquotePlus_eq f.value_enc]

theorem splitOn_of_not_mem {s : Bytes} {c : UInt8} (h : c ∉ s) : s.splitOn c = [s] := by
  have hjoin : [c].intercalate [s] = s := by simp
  have hfields : ∀ l ∈ [s], c ∉ l := by simpa using h
  have hsplit := List.splitOn_intercalate c hfields (List.cons_ne_nil s [])
  rwa [hjoin] at hsplit

theorem formBody_eq (fields : List EncodedField) : formBody fields =
    [38].intercalate (fields.map fun f => f.encName ++ 61 :: f.encValue) := by
  unfold formBody
  induction fields with
  | nil => rfl
  | cons f fields ih =>
    cases fields with
    | nil => simp [encodeForm, EncodedField.pair]
    | cons g fields =>
      rw [List.map_cons, List.map_cons] at ih ⊢
      rw [List.map_cons, List.map_cons, encodeForm, ih]
      · simp [List.intercalate, EncodedField.pair]
      · exact List.cons_ne_nil _ _

theorem parseQsl_formBody (fields : List EncodedField) :
    parseQsl (formBody fields) = fields.map fun f => (f.name, f.value) := by
  rcases eq_or_ne fields [] with rfl | hne
  · rfl
  · have hamp : (formBody fields).splitOn 38 =
        fields.map fun f => f.encName ++ 61 :: f.encValue := by
      rw [formBody_eq]
      apply List.splitOn_intercalate
      · intro s hs
        obtain ⟨f, _, rfl⟩ := List.mem_map.mp hs
        exact f.separators.2.1
      · simpa using hne
    have hsemicolon : ∀ f : EncodedField, (f.encName ++ 61 :: f.encValue).splitOn 59 =
        [f.encName ++ 61 :: f.encValue] := fun f => splitOn_of_not_mem f.separators.2.2
    rw [parseQsl, hamp]
    clear hamp hne
    induction fields with
    | nil => rfl
    | cons f fields ih =>
      rw [List.map_cons, List.flatMap_cons, hsemicolon, List.singleton_append,
        List.filterMap_cons_some (parsePair_pair f), ih, List.map_cons]

theorem getArgument_formBody {fields : List EncodedField} {name : Bytes} {f : EncodedField}
    (h : Carries fields name f) : getArgument (formBody fields) name = some f.value := by
  have hfilter : ((fields.map fun f => (f.name, f.value)).filter fun p => p.1 = name) =
      (fields.filter fun f => f.name = name).map fun f => (f.name, f.value) := by
    rw [List.filter_map]
    rfl
  rw [getArgument, parseQsl_formBody, hfilter, h]
  rfl

end Python

/-! ## Both readers -/

/-- The four fields are there, each once. -/
structure Complete (fields : List EncodedField) (i m t p : EncodedField) : Prop where
  interface : Carries fields (ascii "interface") i
  method : Carries fields (ascii "method") m
  pts : Carries fields (ascii "parameterTypesString") t
  parameter : Carries fields (ascii "parameter") p

/-- Both consumer agents send the same request for a body. -/
def ReadAlike (h : CaHashes) (body : Bytes) : Prop :=
  ∃ x, wireFields h body = some x ∧ Python.post body = some x

section
variable {fields : List EncodedField} {i m t p : EncodedField}

theorem Complete.post_eq (hfields : Complete fields i m t p) :
    Python.post (formBody fields) = some ⟨i.value, m.value, t.value, p.value⟩ := by
  simp only [Python.post, Python.getArgument_formBody hfields.interface,
    Python.getArgument_formBody hfields.method, Python.getArgument_formBody hfields.pts,
    Python.getArgument_formBody hfields.parameter, Option.bind_eq_bind, Option.bind_some]

theorem readAlike_iff (h : CaHashes) (hfields : Complete fields i m t p) :
    ReadAlike h (formBody fields) ↔ Spells (h.lastFiled fields .interface) i.value ∧
      Spells (h.lastFiled fields .method) m.value ∧ Spells (h.lastFiled fields .pts) t.value ∧
        ∃ f, h.lastFiled fields .parameter = some f ∧ f.encValue = p.value := by
  have hwire := wireFields_iff h fields ⟨i.value, m.value, t.value, p.value⟩
  rw [← hwire, ReadAlike, hfields.post_eq]
  constructor
  · rintro ⟨x, hx, hpost⟩
    rw [hx, hpost]
  · exact fun hx => ⟨_, hx, rfl⟩

theorem UrlEncodes.plus_not_mem {s e : Bytes} (h : UrlEncodes s e) (hspace : 32 ∉ s) :
    43 ∉ e := by
  induction h with
  | nil => exact List.not_mem_nil
  | literal hlit _ ih =>
    rw [List.mem_cons, not_or] at hspace ⊢
    exact ⟨hlit.ne.2.symm, ih hspace.2⟩
  | space _ _ => exact absurd List.mem_cons_self hspace
  | escape hx hy _ ih =>
    rw [List.mem_cons, not_or] at hspace
    simp only [List.mem_cons, not_or]
    exact ⟨by decide, (unreserved_of_hex hx).ne.2.symm, (unreserved_of_hex hy).ne.2.symm,
      ih hspace.2⟩

theorem UrlEncodes.nulPadded_cons {c d : UInt8} {s e u : Bytes} (h : UrlEncodes s e)
    (hu : strnUrlcpy e = some u) (ih : nulPadded u = s → u = s)
    (hpad : nulPadded (c :: u) = d :: s) : c = d ∧ u = s := by
  rw [nulPadded, List.length_cons, strncpy] at hpad
  split at hpad
  · -- the rest is overwritten, so that there is no space in it
    rename_i hc
    rw [List.replicate_succ] at hpad
    obtain ⟨rfl, rfl⟩ := List.cons.inj hpad
    have hspace : (32 : UInt8) ∉ List.replicate u.length 0 := by
      rw [List.mem_replicate]
      exact fun h => absurd h.2 (by decide)
    have hself := h.strnUrlcpy_self_iff.mpr (h.plus_not_mem hspace)
    exact ⟨hc, Option.some.inj (hu.symm.trans hself)⟩
  · obtain ⟨rfl, hrest⟩ := List.cons.inj hpad
    exact ⟨rfl, ih hrest⟩

/-- A plus is not undone, and NULs overwrite what follows the first one; the two do not cancel. -/
theorem UrlEncodes.eq_of_nulPadded {s e u : Bytes} (h : UrlEncodes s e) (hu : PercentEncodes u e)
    (hpad : nulPadded u = s) : u = s := by
  have hcopy := hu.strnUrlcpy_eq
  clear hu
  induction h generalizing u with
  | nil => exact (Option.some.inj hcopy).symm
  | literal hlit h ih =>
    rw [strnUrlcpy_cons hlit.ne.1] at hcopy
    obtain ⟨u', hu', rfl⟩ := Option.map_eq_some_iff.mp hcopy
    exact congrArg _ (h.nulPadded_cons hu' (fun hpad => ih hpad hu') hpad).2
  | space h ih =>
    rw [strnUrlcpy_cons (by decide)] at hcopy
    obtain ⟨u', hu', rfl⟩ := Option.map_eq_some_iff.mp hcopy
    exact absurd (h.nulPadded_cons hu' (fun hpad => ih hpad hu') hpad).1 (by decide)
  | escape hx hy h ih =>
    rw [strnUrlcpy_escape hx hy] at hcopy
    obtain ⟨u', hu', rfl⟩ := Option.map_eq_some_iff.mp hcopy
    exact congrArg _ (h.nulPadded_cons hu' (fun hpad => ih hpad hu') hpad).2

/-- What it takes for a field of the key to be read as its own value. -/
theorem spells_self_iff (f : EncodedField) : Spells (some f) f.value ↔
    43 ∉ f.encValue ∧ f.value.Pairwise fun a b => a = 0 → b = 0 := by
  rw [← f.value_enc.percent_iff, ← nulPadded_eq_iff]
  constructor
  · rintro ⟨f', u, hf, hu, hpad⟩
    obtain rfl := Option.some.inj hf
    obtain rfl := f.value_enc.eq_of_nulPadded hu hpad
    exact ⟨hu, hpad⟩
  · exact fun h => ⟨f, f.value, rfl, h.1, h.2⟩

/-- For every hash function: the two agree on a body if and only if, of the fields that
`_h_on_body` files under each of the first three names, the last one spells the value of that name
with escapes only, and the last one that it takes for the parameter is the parameter as it is. Where
these are the four fields themselves, no plus may be in the first three and the fourth may not be
encoded at all. -/
theorem forms_read_alike_iff (func : Bytes → Nat → Nat) (hfields : Complete fields i m t p) :
    (ReadAlike (caServerInit func) (formBody fields) ↔
      Spells ((caServerInit func).lastFiled fields .interface) i.value ∧
        Spells ((caServerInit func).lastFiled fields .method) m.value ∧
        Spells ((caServerInit func).lastFiled fields .pts) t.value ∧
        ∃ f, (caServerInit func).lastFiled fields .parameter = some f ∧ f.encValue = p.value) ∧
    ((caServerInit func).lastFiled fields .interface = some i →
      (caServerInit func).lastFiled fields .method = some m →
      (caServerInit func).lastFiled fields .pts = some t →
      (caServerInit func).lastFiled fields .parameter = some p →
      (ReadAlike (caServerInit func) (formBody fields) ↔
        (∀ f ∈ [i, m, t], 43 ∉ f.encValue ∧ f.value.Pairwise fun a b => a = 0 → b = 0) ∧
          p.encValue = p.value)) := by
  have halike := readAlike_iff (caServerInit func) hfields
  refine ⟨halike, ?_⟩
  intro hi hm ht hp
  rw [halike, hi, hm, ht, hp, spells_self_iff, spells_self_iff, spells_self_iff]
  simp only [List.forall_mem_cons, List.not_mem_nil, false_imp_iff, implies_true, and_true,
    Option.some.injEq, exists_eq_left', and_assoc]

end

theorem UrlEncodes.of_unreserved {s : Bytes} (h : ∀ c ∈ s, Unreserved c) : UrlEncodes s s := by
  induction s with
  | nil => exact .nil
  | cons c s ih =>
    obtain ⟨hc, hrest⟩ := List.forall_mem_cons.mp h
    exact .literal hc (ih hrest)

/-- A field with a name and a value that need no escapes. -/
def literalField (name value : Bytes) (hname : ∀ c ∈ name, Unreserved c)
    (hvalue : ∀ c ∈ value, Unreserved c) (hascii : ∀ c ∈ value, c.toNat < 128) : EncodedField :=
  ⟨name, value, name, value, .of_unreserved hname, .of_unreserved hvalue, hascii⟩

def sampleInterface : EncodedField :=
  literalField (ascii "interface") (ascii "I") (List.all_iff_forall_prop.mp rfl)
    (List.all_iff_forall_prop.mp rfl) (List.all_iff_forall_prop.mp rfl)

def sampleMethod : EncodedField :=
  literalField (ascii "method") (ascii "hash") (List.all_iff_forall_prop.mp rfl)
    (List.all_iff_forall_prop.mp rfl) (List.all_iff_forall_prop.mp rfl)

def samplePts : EncodedField :=
  literalField (ascii "parameterTypesString") (ascii "S") (List.all_iff_forall_prop.mp rfl)
    (List.all_iff_forall_prop.mp rfl) (List.all_iff_forall_prop.mp rfl)

/-- The body of a benchmark request, through the whole theorem. -/
theorem forms_read_alike_iff_hash : ReadAlike (caServerInit bkdrHash)
    (ascii "interface=I&method=hash&parameterTypesString=S&parameter=a") := by
  let p := literalField (ascii "parameter") (ascii "a") (List.all_iff_forall_prop.mp rfl)
    (List.all_iff_forall_prop.mp rfl) (List.all_iff_forall_prop.mp rfl)
  let fields := [sampleInterface, sampleMethod, samplePts, p]
  have hfields : Complete fields sampleInterface sampleMethod samplePts p := ⟨rfl, rfl, rfl, rfl⟩
  have hfiled : ((caServerInit bkdrHash).readV (ascii "interface") = .interface ∧
      (caServerInit bkdrHash).readV (ascii "method") = .method) ∧
      (caServerInit bkdrHash).readV (ascii "parameterTypesString") = .pts ∧
      (caServerInit bkdrHash).readV (ascii "parameter") = .parameter := by decide +kernel
  obtain ⟨⟨hi, hm⟩, ht, hp⟩ := hfiled
  have hlast : ∀ v, (caServerInit bkdrHash).lastFiled fields v = match v with
      | .interface => some sampleInterface
      | .method => some sampleMethod
      | .pts => some samplePts
      | .parameter => some p := by
    intro v
    have hnames : (caServerInit bkdrHash).readV sampleInterface.encName = .interface ∧
        (caServerInit bkdrHash).readV sampleMethod.encName = .method ∧
        (caServerInit bkdrHash).readV samplePts.encName = .pts ∧
        (caServerInit bkdrHash).readV p.encName = .parameter := ⟨hi, hm, ht, hp⟩
    cases v <;> simp [CaHashes.lastFiled, fields, hnames]
  have hbody : formBody fields =
      ascii "interface=I&method=hash&parameterTypesString=S&parameter=a" := by decide +kernel
  rw [← hbody]
  apply ((forms_read_alike_iff bkdrHash hfields).2 (hlast .interface) (hlast .method) (hlast .pts)
    (hlast .parameter)).mpr
  exact ⟨by decide +kernel, rfl⟩

def escapedParameter : EncodedField where
  name := ascii "parameter"
  value := ascii "a b"
  encName := ascii "parameter"
  encValue := ascii "a%20b"
  name_enc := .of_unreserved (List.all_iff_forall_prop.mp rfl)
  value_enc :=
    .literal (by decide) (UrlEncodes.escape (rfl : hex2int 50 = some 2) (rfl : hex2int 48 = some 0)
      (.literal (by decide) .nil))
  ascii := List.all_iff_forall_prop.mp rfl

/-- A space in the parameter: ca.cc sends its escape. -/
theorem forms_read_differently :
    let fields := [sampleInterface, sampleMethod, samplePts, escapedParameter]
    Complete fields sampleInterface sampleMethod samplePts escapedParameter ∧
      formBody fields = ascii "interface=I&method=hash&parameterTypesString=S&parameter=a%20b" ∧
      ¬ ReadAlike (caServerInit bkdrHash) (formBody fields) := by
  refine ⟨⟨rfl, rfl, rfl, rfl⟩, by decide +kernel, ?_⟩
  rintro ⟨x, hx, hpost⟩
  have hne : wireFields (caServerInit bkdrHash)
      (formBody [sampleInterface, sampleMethod, samplePts, escapedParameter]) ≠
        Python.post (formBody [sampleInterface, sampleMethod, samplePts, escapedParameter]) := by
    decide +kernel
  exact hne (hx.trans hpost.symm)

end PyAgent
