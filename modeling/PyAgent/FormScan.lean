import PyAgent.UrlCopy

/-!
# Offsets of the form scanner

`_h_on_body` of ca.cc keeps a start and an end for each of four fields. On a form that
names them all, the offsets delimit the values; on a body that does not end with a
value, or lacks a field, the function goes on with offsets that are wrong or were
never assigned.
-/

namespace PyAgent
set_option autoImplicit false

open Streaming

def FormField.name : FormField → Bytes
  | .interface => ascii "interface"
  | .method => ascii "method"
  | .pts => ascii "parameterTypesString"
  | .parameter => ascii "parameter"

theorem readV_name (v : FormField) : (caServerInit bkdrHash).readV v.name = v := by
  cases v <;> decide +kernel

theorem equals_not_mem_name (v : FormField) : 61 ∉ v.name := by
  cases v <;> decide +kernel

/-! ## The four fields in any order -/

theorem CaHashes.fileSpans_of_not_mem (h : CaHashes) {fields : List (Bytes × Bytes)}
    {v : FormField} (hv : ∀ f ∈ fields, h.readV f.1 ≠ v) (spans : FormField → Option (Nat × Nat))
    (pos : Nat) : h.fileSpans spans pos fields v = spans v := by
  induction fields generalizing spans pos with
  | nil => rfl
  | cons field fields ih =>
    obtain ⟨name, value⟩ := field
    have hne : v ≠ h.readV name := (hv (name, value) List.mem_cons_self).symm
    rw [CaHashes.fileSpans, ih (fun f hf => hv f (List.mem_cons_of_mem _ hf)),
      Function.update_of_ne hne]

/-- A field that is named once is filed where its value stands. -/
theorem CaHashes.fileSpans_of_split (h : CaHashes) (earlier : List (Bytes × Bytes))
    {later : List (Bytes × Bytes)} {name : Bytes} (value : Bytes)
    (hlater : ∀ f ∈ later, h.readV f.1 ≠ h.readV name) :
    h.fileSpans (fun _ => none) 0 (earlier ++ (name, value) :: later) (h.readV name) =
      some ((openForm earlier).length + name.length + 1,
        (openForm earlier).length + name.length + 1 + value.length) := by
  rw [h.fileSpans_append, CaHashes.fileSpans, h.fileSpans_of_not_mem hlater, Function.update_self,
    Nat.zero_add]

def formFields (value : FormField → Bytes) (order : List FormField) : List (Bytes × Bytes) :=
  order.map fun v => (v.name, value v)

theorem formFields_separators {value : FormField → Bytes} (hvalue : ∀ v, 38 ∉ value v)
    (order : List FormField) : ∀ f ∈ formFields value order, 61 ∉ f.1 ∧ 38 ∉ f.2 := by
  intro f hf
  obtain ⟨v, _, rfl⟩ := List.mem_map.mp hf
  exact ⟨equals_not_mem_name v, hvalue v⟩

theorem encodeForm_split (earlier later : List (Bytes × Bytes)) (name value : Bytes) :
    ∃ behind, encodeForm (earlier ++ (name, value) :: later) =
      openForm earlier ++ name ++ [61] ++ value ++ behind := by
  induction earlier with
  | nil =>
    cases later with
    | nil => exact ⟨[], by simp [encodeForm, openForm]⟩
    | cons next later => exact ⟨38 :: encodeForm (next :: later), by simp [encodeForm, openForm]⟩
  | cons field earlier ih =>
    obtain ⟨behind, hbehind⟩ := ih
    obtain ⟨name', value'⟩ := field
    refine ⟨behind, ?_⟩
    have hopen : encodeForm ((name', value') :: (earlier ++ (name, value) :: later)) =
        name' ++ 61 :: value' ++ [38] ++ encodeForm (earlier ++ (name, value) :: later) := by
      cases hrest : earlier ++ (name, value) :: later with
      | nil => simp at hrest
      | cons next rest => simp [encodeForm]
    rw [List.cons_append, hopen, hbehind, openForm_cons]
    simp only [List.append_assoc]

/-- Whatever the order of the four fields and whatever their values, the scan ends with the offsets
that delimit exactly these values. -/
theorem scan_delimits {order : List FormField}
    (horder : order.Perm [.interface, .method, .pts, .parameter]) {value : FormField → Bytes}
    (hvalue : ∀ v, 38 ∉ value v) {body : Bytes} (hbody : body = encodeForm (formFields value order))
    (hlength : body.length < 2147483648) :
    ∃ spans, scan (caServerInit bkdrHash) body = some spans ∧
      ∀ v, ∃ earlier later behind start stop, order = earlier ++ v :: later ∧
        body = openForm (formFields value earlier) ++ v.name ++ [61] ++ value v ++ behind ∧
        spans v = some (start, stop) ∧
        start = (openForm (formFields value earlier) ++ v.name ++ [61]).length ∧
        stop = start + (value v).length ∧ slice body start stop = value v ∧
        IsInt32 start ∧ IsInt32 stop := by
  subst hbody
  refine ⟨_, scan_encodeForm_eq _ (formFields_separators hvalue order), ?_⟩
  intro v
  have hmem : v ∈ order := by
    apply horder.mem_iff.mpr
    cases v <;> simp
  have hnodup : order.Nodup := horder.nodup_iff.mpr (by decide)
  obtain ⟨earlier, later, rfl⟩ := List.append_of_mem hmem
  have hfields : formFields value (earlier ++ v :: later) =
      formFields value earlier ++ (v.name, value v) :: formFields value later := by
    simp [formFields]
  obtain ⟨behind, hbehind⟩ :=
    encodeForm_split (formFields value earlier) (formFields value later) v.name (value v)
  have hlater : ∀ f ∈ formFields value later,
      (caServerInit bkdrHash).readV f.1 ≠ (caServerInit bkdrHash).readV v.name := by
    intro f hf
    obtain ⟨u, hu, rfl⟩ := List.mem_map.mp hf
    rw [readV_name, readV_name]
    rintro rfl
    exact (List.nodup_cons.mp (List.nodup_append.mp hnodup).2.1).1 hu
  have hfiled := (caServerInit bkdrHash).fileSpans_of_split (formFields value earlier) (value v)
    hlater
  have hstart : (openForm (formFields value earlier)).length + v.name.length + 1 =
      (openForm (formFields value earlier) ++ v.name ++ [61]).length := by
    simp only [List.length_append, List.length_cons, List.length_nil]
  rw [hfields] at hlength ⊢
  rw [hbehind] at hlength ⊢
  rw [readV_name, hstart] at hfiled
  have hinside : (openForm (formFields value earlier) ++ v.name ++ [61]).length +
      (value v).length < 2147483648 := by
    rw [List.length_append, List.length_append] at hlength
    omega
  refine ⟨earlier, later, behind, _, _, rfl, rfl, hfiled, rfl, rfl, slice_eq rfl rfl, ?_, ?_⟩
  · exact ⟨by omega, by omega⟩
  · exact ⟨by omega, by omega⟩

def sampleValue : FormField → Bytes
  | .interface => ascii "a=b%2"
  | .method => []
  | .pts => ascii "=="
  | .parameter => ascii "%26"

/-- Values that are empty, or hold `=` and `%`, in an order of their own. -/
theorem scan_delimits_sample : ∃ spans,
    scan (caServerInit bkdrHash)
      (ascii "method=&parameter=%26&interface=a=b%2&parameterTypesString===") = some spans ∧
    ∃ start stop, spans .interface = some (start, stop) ∧
      slice (ascii "method=&parameter=%26&interface=a=b%2&parameterTypesString===") start stop =
        ascii "a=b%2" := by
  let order : List FormField := [.method, .parameter, .interface, .pts]
  have hvalue : ∀ v, 38 ∉ sampleValue v := by
    intro v
    cases v <;> decide
  have hbody : ascii "method=&parameter=%26&interface=a=b%2&parameterTypesString===" =
      encodeForm (formFields sampleValue order) := by decide +kernel
  have horder : order.Perm [.interface, .method, .pts, .parameter] := by decide
  obtain ⟨spans, hspans, hall⟩ := scan_delimits horder hvalue hbody (by decide +kernel)
  obtain ⟨_, _, _, start, stop, _, _, hv, _, _, hslice, _⟩ := hall .interface
  exact ⟨spans, hspans, start, stop, hv, hslice⟩

/-! ## Any body -/

/-- The offsets of every field have been assigned and lie inside the body in the right order. -/
def SafeSpans (data : Bytes) (spans : FormField → Option (Nat × Nat)) : Prop :=
  ∀ v, ∃ start stop, spans v = some (start, stop) ∧ start ≤ stop ∧ stop ≤ data.length

/-- Names up to the next `=` and values up to the next `&`: every segment has both, the last one
too, and every field is named. -/
def Segmented (h : CaHashes) (data : Bytes) : Prop :=
  ∃ fields, (∀ f ∈ fields, 61 ∉ f.1 ∧ 38 ∉ f.2) ∧ data = encodeForm fields ∧
    ∀ v, ∃ f ∈ fields, h.readV f.1 = v

/-- The scanner's split of a body: segments, the last of which may lack its `=`. -/
theorem exists_segments (data : Bytes) : ∃ fields : List (Bytes × Bytes),
    (∀ f ∈ fields, 61 ∉ f.1 ∧ 38 ∉ f.2) ∧
      (data = encodeForm fields ∨ ∃ rest, 61 ∉ rest ∧ data = openForm fields ++ rest) := by
  induction hn : data.length using Nat.strong_induction_on generalizing data with
  | _ n ih =>
    by_cases hequals : 61 ∈ data
    · obtain ⟨name, behind, hdata, hname⟩ := List.eq_append_cons_of_mem hequals
      by_cases hamp : 38 ∈ behind
      · obtain ⟨value, data', hbehind, hvalue⟩ := List.eq_append_cons_of_mem hamp
        have hshort : data'.length < n := by
          rw [← hn, hdata, hbehind]
          simp only [List.length_append, List.length_cons]
          omega
        obtain ⟨fields, hfields, hsplit⟩ := ih data'.length hshort data' rfl
        have hall : ∀ f ∈ (name, value) :: fields, 61 ∉ f.1 ∧ 38 ∉ f.2 := by
          intro f hf
          rcases List.mem_cons.mp hf with rfl | hf
          · exact ⟨hname, hvalue⟩
          · exact hfields f hf
        refine ⟨(name, value) :: fields, hall, ?_⟩
        rcases hsplit with hclosed | ⟨rest, hrest, hopen⟩
        · cases fields with
          | nil =>
            refine Or.inr ⟨[], by simp, ?_⟩
            simp [hdata, hbehind, hclosed, encodeForm, openForm]
          | cons next fields =>
            refine Or.inl ?_
            simp [hdata, hbehind, hclosed, encodeForm]
        · refine Or.inr ⟨rest, hrest, ?_⟩
          rw [hdata, hbehind, hopen, openForm_cons]
          simp
      · refine ⟨[(name, behind)], ?_, Or.inl hdata⟩
        intro f hf
        rw [List.mem_singleton] at hf
        subst hf
        exact ⟨hname, hamp⟩
    · exact ⟨[], by simp, Or.inr ⟨data, hequals, rfl⟩⟩

theorem foldl_assign_isSome_iff (h : CaHashes) (fields : List (Bytes × Bytes)) (v : FormField)
    (values : FormField → Option Bytes) :
    (fields.foldl h.assign values v).isSome ↔
      (values v).isSome ∨ ∃ f ∈ fields, h.readV f.1 = v := by
  induction fields generalizing values with
  | nil => simp
  | cons field fields ih =>
    rw [List.foldl_cons, ih, List.exists_mem_cons_iff]
    by_cases hv : h.readV field.1 = v
    · simp [CaHashes.assign, hv]
    · simp [CaHashes.assign, hv, Function.update_of_ne (Ne.symm hv)]

/-- The offsets are right exactly on the bodies that are segmented. -/
theorem scan_safe_iff (h : CaHashes) {data : Bytes} (hne : data ≠ []) :
    ∃ spans, scan h data = some spans ∧ (SafeSpans data spans ↔ Segmented h data) := by
  obtain ⟨spans, hspans⟩ := scan_isSome h data
  refine ⟨spans, hspans, ?_⟩
  constructor
  · intro hsafe
    obtain ⟨fields, hfields, hclosed | ⟨rest, hrest, hopen⟩⟩ := exists_segments data
    · refine ⟨fields, hfields, hclosed, ?_⟩
      intro v
      subst hclosed
      obtain ⟨spans', hspans', hfound⟩ := scan_encodeForm h hfields
      obtain rfl : spans' = spans := Option.some.inj (hspans'.symm.trans hspans)
      obtain ⟨start, stop, hv, _, _⟩ := hsafe v
      have hvalue : (fields.foldl h.assign (fun _ => none) v).isSome := by
        rw [← (hfound v).1, hv]
        rfl
      rcases (foldl_assign_isSome_iff h fields v _).mp hvalue with hnone | hfiled
      · cases hnone
      · exact hfiled
    · -- the last pass leaves a start behind the end
      subst hopen
      rw [scan_openForm h hfields hrest hne] at hspans
      obtain rfl := Option.some.inj hspans
      obtain ⟨start, stop, hv, hle, _⟩ := hsafe (h.readV rest)
      rw [Function.update_self] at hv
      cases hv
      omega
  · rintro ⟨fields, hfields, rfl, hall⟩ v
    obtain ⟨spans', hspans', hfound⟩ := scan_encodeForm h hfields
    obtain rfl : spans' = spans := Option.some.inj (hspans'.symm.trans hspans)
    obtain ⟨hmap, hinside⟩ := hfound v
    have hvalue := (foldl_assign_isSome_iff h fields v fun _ => none).mpr (Or.inr (hall v))
    rw [← hmap, Option.isSome_map] at hvalue
    obtain ⟨⟨start, stop⟩, hv⟩ := Option.isSome_iff_exists.mp hvalue
    obtain ⟨hle, hend⟩ := hinside _ hv
    exact ⟨start, stop, hv, hle, hend⟩

/-- The last segment has no `=`: the function goes on to send a request, although the interface
starts behind the end of the body. -/
theorem scan_unsafe : ∃ data, data ≠ [] ∧ (readForm (caServerInit bkdrHash) data).isSome ∧
    ∃ spans, scan (caServerInit bkdrHash) data = some spans ∧ ¬ SafeSpans data spans := by
  let fields : List (Bytes × Bytes) := [(ascii "parameter", ascii "1"), (ascii "method", ascii "b"),
    (ascii "parameterTypesString", ascii "c")]
  have hfields : ∀ f ∈ fields, 61 ∉ f.1 ∧ 38 ∉ f.2 := by
    simp only [fields, List.forall_mem_cons, List.not_mem_nil, false_implies, implies_true,
      and_true]
    decide +kernel
  have hrest : 61 ∉ FormField.interface.name := equals_not_mem_name .interface
  have hne : openForm fields ++ FormField.interface.name ≠ [] := by simp [fields, openForm_cons]
  refine ⟨_, hne, by decide +kernel, _, scan_openForm _ hfields hrest hne, ?_⟩
  intro hsafe
  obtain ⟨start, stop, hv, hle, _⟩ := hsafe .interface
  rw [readV_name, Function.update_self] at hv
  cases hv
  omega

/-- A form as a browser sends it. -/
theorem scan_safe_sample : ∃ spans,
    scan (caServerInit bkdrHash) (ascii "interface=a&method=&parameterTypesString=S&parameter=1") =
      some spans ∧
    SafeSpans (ascii "interface=a&method=&parameterTypesString=S&parameter=1") spans := by
  let order : List FormField := [.interface, .method, .pts, .parameter]
  let value : FormField → Bytes
    | .interface => ascii "a"
    | .method => []
    | .pts => ascii "S"
    | .parameter => ascii "1"
  have hvalue : ∀ v, 38 ∉ value v := by
    intro v
    cases v <;> decide
  have hsegmented : Segmented (caServerInit bkdrHash)
      (ascii "interface=a&method=&parameterTypesString=S&parameter=1") := by
    refine ⟨formFields value order, formFields_separators hvalue order, by decide +kernel, ?_⟩
    intro v
    refine ⟨(v.name, value v), ?_, readV_name v⟩
    cases v <;> simp [formFields, order]
  have hne : ascii "interface=a&method=&parameterTypesString=S&parameter=1" ≠ [] := by decide
  obtain ⟨spans, hspans, hsafe⟩ := scan_safe_iff (caServerInit bkdrHash) hne
  exact ⟨spans, hspans, hsafe.mpr hsegmented⟩

/-! ## What is copied out of the body -/

theorem CaHashes.fileSpans_start (h : CaHashes) {fields : List (Bytes × Bytes)} {v : FormField}
    {spans : FormField → Option (Nat × Nat)} {pos : Nat}
    (hspans : ∀ p, spans v = some p → 1 ≤ p.1) :
    ∀ p, h.fileSpans spans pos fields v = some p → 1 ≤ p.1 := by
  induction fields generalizing spans pos with
  | nil => exact hspans
  | cons field fields ih =>
    obtain ⟨name, value⟩ := field
    apply ih
    intro p hp
    by_cases hv : v = h.readV name
    · subst hv
      rw [Function.update_self] at hp
      cases hp
      simp only
      omega
    · rw [Function.update_of_ne hv] at hp
      exact hspans p hp

/-- A value stands behind the `=` of its segment. -/
theorem scan_start (h : CaHashes) {data : Bytes} {spans : FormField → Option (Nat × Nat)}
    (hscan : scan h data = some spans) {v : FormField} {start stop : Nat}
    (hv : spans v = some (start, stop)) : 1 ≤ start := by
  obtain ⟨fields, hfields, rfl | ⟨rest, hrest, rfl⟩⟩ := exists_segments data
  · rw [scan_encodeForm_eq h hfields] at hscan
    obtain rfl := Option.some.inj hscan
    exact h.fileSpans_start (by simp) _ hv
  · by_cases hne : openForm fields ++ rest = []
    · have hempty : scan h (encodeForm []) = some (h.fileSpans (fun _ => none) 0 []) :=
        scan_encodeForm_eq h (by simp)
      rw [hne] at hscan
      obtain rfl := Option.some.inj (hempty.symm.trans hscan)
      cases hv
    · rw [scan_openForm h hfields hrest hne] at hscan
      obtain rfl := Option.some.inj hscan
      by_cases hlast : v = h.readV rest
      · subst hlast
        rw [Function.update_self] at hv
        cases hv
        omega
      · rw [Function.update_of_ne hlast] at hv
        exact h.fileSpans_start (by simp) _ hv

/-- What `strn_urlcpy` is given to copy is read inside the body, and it stores what the connection's
key is made of. -/
theorem SafeSpans.copy {h : CaHashes} {data : Bytes} (hdata : data.length < 2147483648)
    {spans : FormField → Option (Nat × Nat)} (hscan : scan h data = some spans)
    (hsafe : SafeSpans data spans) (v : FormField) (dest : Nat → UInt8) :
    ∃ start stop, spans v = some (start, stop) ∧ start ≤ stop ∧
      ∀ d, strnUrlcpy (slice data start stop) = some d →
        ∃ s, strnUrlcpyAt dest (fun k => data.getD (start + k) 0) (stop - start : Nat) = some s ∧
          s.j = d.length ∧ Holds s.dest 0 d ∧ ∀ r ∈ s.reads, start + r < data.length := by
  obtain ⟨start, stop, hv, hle, hend⟩ := hsafe v
  refine ⟨start, stop, hv, hle, ?_⟩
  intro d hd
  have hstart := scan_start h hscan hv
  have hlen : (slice data start stop).length = stop - start := by
    simp only [slice, List.length_take, List.length_drop]
    omega
  have hsrc : Holds (fun k => data.getD (start + k) 0) 0 (slice data start stop) := by
    intro k c hk
    have hlt : k < stop - start := by
      rw [← hlen]
      exact (List.getElem?_eq_some_iff.mp hk).1
    rw [slice, List.getElem?_take_of_lt hlt, List.getElem?_drop] at hk
    simp [List.getD_eq_getElem?_getD, hk]
  have hshort : (slice data start stop).length < 2147483647 := by omega
  have heq := strnUrlcpyAt_eq hshort hsrc dest
  rw [hd, hlen] at heq
  obtain ⟨s, hs, hj, hdest, hreads⟩ := heq
  refine ⟨s, hs, hj, ?_, ?_⟩
  · rw [hdest]
    exact holds_storeAll
  · intro r hr
    have := hreads r hr
    omega

end PyAgent
