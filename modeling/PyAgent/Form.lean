import PyAgent.Act
import PyAgent.Streaming.Loop

/-!
# Form bodies

`_h_on_body` of ca.cc reads the body of a request in one pass. It tells the fields
apart by the hash of their names and keeps where each value starts and ends.
-/

namespace PyAgent
set_option autoImplicit false

open Streaming

/-- The value of a `char`, which is signed. -/
def charOf (c : UInt8) : Int := if c.toNat < 128 then c.toNat else c.toNat - 256

def bkdrHash (s : Bytes) (init : Nat) : Nat :=
  s.foldl (fun h c => toUInt32 (h * 131 + charOf c)) init

/-- `none` for what is not a hexadecimal digit: `hi` is then never assigned. -/
def hex2int (x : UInt8) : Option Nat :=
  if 48 ≤ x.toNat ∧ x.toNat ≤ 57 then some (x.toNat - 48)
  else if 97 ≤ x.toNat ∧ x.toNat ≤ 102 then some (x.toNat - 97 + 10)
  else if 65 ≤ x.toNat ∧ x.toNat ≤ 70 then some (x.toNat - 65 + 10)
  else none

/-- Two bytes behind a `%` are decoded, and a `%` closer to the end is copied. -/
def strnUrlcpy : Bytes → Option Bytes
  | [] => some []
  | c :: x :: y :: src =>
    if c = 37 then
      match hex2int x, hex2int y, strnUrlcpy src with
      | some hi, some lo, some dest => some (UInt8.ofNat (hi * 16 + lo) :: dest)
      | _, _, _ => none
    else (strnUrlcpy (x :: y :: src)).map (c :: ·)
  | c :: src => (strnUrlcpy src).map (c :: ·)

/-! ## The scanner -/

inductive FormField where
  | interface | method | pts | parameter
  deriving DecidableEq

structure CaHashes where
  caHash : Bytes → Nat → Nat
  interfaceHash : Nat
  methodHash : Nat
  ptsHash : Nat

def caServerInit (func : Bytes → Nat → Nat) : CaHashes where
  caHash := func
  interfaceHash := func (ascii "interface") 0
  methodHash := func (ascii "method") 0
  ptsHash := func (ascii "parameterTypesString") 0

/-- The field a name stands for; every other name is taken for the parameter. -/
def CaHashes.readV (h : CaHashes) (name : Bytes) : FormField :=
  let hs := h.caHash name 0
  if hs = h.interfaceHash then .interface
  else if hs = h.methodHash then .method
  else if hs = h.ptsHash then .pts
  else .parameter

def slice (data : Bytes) (start stop : Nat) : Bytes := (data.drop start).take (stop - start)

def seek (data : Bytes) (c : UInt8) (i : Nat) : Nat :=
  i + ((data.drop i).takeWhile (· != c)).length

/-- `spans` has the start and the end of the values assigned so far. -/
structure Scan where
  i : Nat
  pos : Nat
  spans : FormField → Option (Nat × Nat)

def scanBody (h : CaHashes) (data : Bytes) (s : Scan) : Flow Scan :=
  let eq := seek data 61 s.i
  let v := h.readV (slice data s.pos eq)
  let amp := seek data 38 eq
  .next ⟨amp, amp + 1, Function.update s.spans v (some (eq + 1, amp))⟩

def scanStart : Scan := ⟨0, 0, fun _ => none⟩

def scanMore (data : Bytes) (s : Scan) : Bool := s.i < data.length

def scan (h : CaHashes) (data : Bytes) : Option (FormField → Option (Nat × Nat)) :=
  match loop (scanMore data) (scanBody h data) (data.length + 1) scanStart with
  | some (.done s) => some s.spans
  | _ => none

/-- The values a request is made of, as they stand in the body; the parameter has been copied. -/
structure Form where
  interface : Bytes
  method : Bytes
  pts : Bytes
  parameter : Bytes
  pLen : Int
  deriving DecidableEq

/-- `none` when a value has never been assigned, or when the parameter has a negative length, which
`strncpy` takes for a huge one. -/
def readForm (h : CaHashes) (data : Bytes) : Option Form :=
  (scan h data).bind fun spans =>
    match spans .interface, spans .method, spans .pts, spans .parameter with
    | some i, some m, some t, some p =>
      if p.1 ≤ p.2 then
        some ⟨slice data i.1 i.2, slice data m.1 m.2, slice data t.1 t.2,
          strncpy (data.drop p.1) (p.2 - p.1), p.2 - p.1⟩
      else none
    | _, _, _, _ => none

def actKeyHash (h : CaHashes) (f : Form) : Nat :=
  h.caHash f.pts (h.caHash f.method (h.caHash f.interface 0))

/-- The key of a connection for this request; `none` for an escape that is not hexadecimal. -/
def Form.reuseKey (f : Form) : Option ActReuseKey :=
  match strnUrlcpy f.interface, strnUrlcpy f.method, strnUrlcpy f.pts with
  | some interface, some method, some pts =>
    some ⟨interface, interface.length, method, method.length, pts, pts.length⟩
  | _, _, _ => none

def formKey (h : CaHashes) (data : Bytes) : Option ActReuseKey :=
  (readForm h data).bind Form.reuseKey

def formHash (h : CaHashes) (data : Bytes) : Option Nat := (readForm h data).map (actKeyHash h)

/-! ## What the scanner finds -/

theorem seek_le (data : Bytes) (c : UInt8) {i : Nat} (hi : i ≤ data.length) :
    seek data c i ≤ data.length := by
  have h := (List.takeWhile_prefix (· != c) (l := data.drop i)).length_le
  rw [List.length_drop] at h
  unfold seek
  omega

theorem le_seek (data : Bytes) (c : UInt8) (i : Nat) : i ≤ seek data c i := by
  unfold seek
  omega

theorem seek_end {data a b : Bytes} {c : UInt8} (hdata : data = a ++ b) (hb : c ∉ b) :
    seek data c a.length = data.length := by
  have hall : b.takeWhile (· != c) = b := by
    apply List.takeWhile_eq_self_iff.mpr
    intro x hx
    have hne : x ≠ c := by
      intro heq
      subst heq
      exact hb hx
    simpa using hne
  rw [seek, hdata, List.drop_left, hall, List.length_append]

theorem seek_eq {data a b rest : Bytes} {c : UInt8} (hdata : data = a ++ b ++ c :: rest)
    (hb : c ∉ b) : seek data c a.length = a.length + b.length := by
  have hall : (b ++ c :: rest).takeWhile (· != c) = b := by
    rw [List.takeWhile_append_of_pos]
    · simp
    · intro x hx
      have hne : x ≠ c := by
        intro heq
        subst heq
        exact hb hx
      simpa using hne
  rw [seek, hdata, List.append_assoc, List.drop_left, hall]

/-- Every pass moves on: `i` stands at a `=` or moves up to the next one. -/
theorem scanBody_lt (h : CaHashes) (data : Bytes) (s : Scan) (hs : s.i < data.length) :
    ∃ s', scanBody h data s = .next s' ∧ data.length - s'.i < data.length - s.i := by
  refine ⟨_, rfl, ?_⟩
  have hle := le_seek data 61 s.i
  have hle' := le_seek data 38 (seek data 61 s.i)
  have hlt : s.i < seek data 38 (seek data 61 s.i) := by
    by_cases hstay : seek data 61 s.i = s.i
    · obtain ⟨b, hb⟩ : ∃ b, data.drop s.i = b :: data.drop (s.i + 1) :=
        ⟨data[s.i], List.drop_eq_getElem_cons hs⟩
      have heq : b = 61 := by
        by_contra hne
        simp [seek, hb, hne] at hstay
      rw [hstay, seek, hb, heq]
      simp
    · omega
  have := seek_le data 38 (seek_le data 61 (Nat.le_of_lt hs))
  simp only
  omega

theorem scan_isSome (h : CaHashes) (data : Bytes) : ∃ spans, scan h data = some spans := by
  obtain ⟨s, hs⟩ : ∃ s,
      loop (scanMore data) (scanBody h data) (data.length + 1) scanStart = some (.done s) := by
    apply loop_total (μ := fun s => data.length - s.i)
    · intro s hmore
      exact scanBody_lt h data s (of_decide_eq_true hmore)
    · simp only [scanStart]
      omega
  exact ⟨s.spans, by rw [scan, hs]⟩

/-! ## Encoded forms -/

def encodeForm : List (Bytes × Bytes) → Bytes
  | [] => []
  | [(name, value)] => name ++ 61 :: value
  | (name, value) :: fields => name ++ 61 :: value ++ 38 :: encodeForm fields

/-- Each field is assigned in turn, so that the last one of a name counts. -/
def CaHashes.assign (h : CaHashes) (values : FormField → Option Bytes) (field : Bytes × Bytes) :
    FormField → Option Bytes :=
  Function.update values (h.readV field.1) (some field.2)

def Found (data : Bytes) (spans : FormField → Option (Nat × Nat))
    (values : FormField → Option Bytes) : Prop :=
  ∀ v, (spans v).map (fun p => slice data p.1 p.2) = values v ∧
    ∀ p, spans v = some p → p.1 ≤ p.2 ∧ p.2 ≤ data.length

theorem Found.assign {h : CaHashes} {data : Bytes} {spans : FormField → Option (Nat × Nat)}
    {values : FormField → Option Bytes} (hfound : Found data spans values) (field : Bytes × Bytes)
    {start stop : Nat} (hle : start ≤ stop ∧ stop ≤ data.length)
    (hslice : slice data start stop = field.2) :
    Found data (Function.update spans (h.readV field.1) (some (start, stop)))
      (h.assign values field) := by
  intro v
  by_cases hv : v = h.readV field.1
  · rw [hv, CaHashes.assign, Function.update_self, Function.update_self]
    refine ⟨by rw [Option.map_some, hslice], ?_⟩
    intro p hp
    obtain rfl := Option.some.inj hp
    exact hle
  · rw [CaHashes.assign, Function.update_of_ne hv, Function.update_of_ne hv]
    exact hfound v

theorem slice_eq {data a b c : Bytes} (hdata : data = a ++ b ++ c) {stop : Nat}
    (hstop : stop = a.length + b.length) : slice data a.length stop = b := by
  rw [slice, hdata, List.append_assoc, List.drop_left, hstop, Nat.add_sub_cancel_left,
    List.take_left]

/-- Fields with a `&` behind each. -/
def openForm (fields : List (Bytes × Bytes)) : Bytes :=
  fields.flatMap fun f => f.1 ++ 61 :: f.2 ++ [38]

/-- The spans of fields that stand one behind the other from `pos` on. -/
def CaHashes.fileSpans (h : CaHashes) (spans : FormField → Option (Nat × Nat)) (pos : Nat) :
    List (Bytes × Bytes) → FormField → Option (Nat × Nat)
  | [] => spans
  | (name, value) :: fields =>
    let start := pos + name.length + 1
    h.fileSpans (Function.update spans (h.readV name) (some (start, start + value.length)))
      (start + value.length + 1) fields

theorem openForm_cons (name value : Bytes) (fields : List (Bytes × Bytes)) :
    openForm ((name, value) :: fields) = name ++ 61 :: value ++ [38] ++ openForm fields := rfl

theorem encodeForm_concat (fields : List (Bytes × Bytes)) (name value : Bytes) :
    encodeForm (fields ++ [(name, value)]) = openForm fields ++ (name ++ 61 :: value) := by
  induction fields with
  | nil => rfl
  | cons field fields ih =>
    obtain ⟨name', value'⟩ := field
    rw [openForm_cons, List.append_assoc, ← ih, List.cons_append]
    cases hfields : fields ++ [(name, value)] with
    | nil => simp at hfields
    | cons next rest => simp [encodeForm]

theorem CaHashes.fileSpans_append (h : CaHashes) (spans : FormField → Option (Nat × Nat))
    (pos : Nat) (fields fields' : List (Bytes × Bytes)) :
    h.fileSpans spans pos (fields ++ fields') =
      h.fileSpans (h.fileSpans spans pos fields) (pos + (openForm fields).length) fields' := by
  induction fields generalizing spans pos with
  | nil => rfl
  | cons field fields ih =>
    obtain ⟨name, value⟩ := field
    have hpos : pos + (openForm ((name, value) :: fields)).length =
        pos + name.length + 1 + value.length + 1 + (openForm fields).length := by
      rw [openForm_cons]
      simp only [List.length_append, List.length_cons, List.length_nil]
      omega
    rw [List.cons_append, CaHashes.fileSpans, ih, hpos, CaHashes.fileSpans]

/-- The scanner is about to read the name that starts behind `pre`. -/
structure AtName (pre : Bytes) (s : Scan) : Prop where
  pos : s.pos = pre.length
  i : s.i ≤ pre.length
  gap : 61 ∉ pre.drop s.i

theorem AtName.seek_eq {data pre name rest : Bytes} {s : Scan} (hs : AtName pre s)
    (hdata : data = pre ++ name ++ 61 :: rest) (hname : 61 ∉ name) :
    seek data 61 s.i = pre.length + name.length := by
  have hi := hs.i
  have htake : (pre.take s.i).length = s.i := by
    rw [List.length_take]
    omega
  have hsplit : data = pre.take s.i ++ (pre.drop s.i ++ name) ++ 61 :: rest := by
    rw [← List.append_assoc (pre.take s.i), List.take_append_drop, hdata]
  have hnone : 61 ∉ pre.drop s.i ++ name := by
    rw [List.mem_append]
    intro hmem
    rcases hmem with hmem | hmem
    · exact hs.gap hmem
    · exact hname hmem
  have hseek := PyAgent.seek_eq hsplit hnone
  rw [htake, List.length_append, List.length_drop] at hseek
  omega

theorem AtName.seek_end {data pre rest : Bytes} {s : Scan} (hs : AtName pre s)
    (hdata : data = pre ++ rest) (hrest : 61 ∉ rest) : seek data 61 s.i = data.length := by
  have hi := hs.i
  have htake : (pre.take s.i).length = s.i := by
    rw [List.length_take]
    omega
  have hsplit : data = pre.take s.i ++ (pre.drop s.i ++ rest) := by
    rw [← List.append_assoc, List.take_append_drop, hdata]
  have hnone : 61 ∉ pre.drop s.i ++ rest := by
    rw [List.mem_append]
    intro hmem
    rcases hmem with hmem | hmem
    · exact hs.gap hmem
    · exact hrest hmem
  have hseek := PyAgent.seek_end hsplit hnone
  rwa [htake] at hseek

theorem scanBody_field (h : CaHashes) {data pre name value rest : Bytes} {s : Scan}
    (hdata : data = pre ++ (name ++ 61 :: value) ++ rest)
    (hrest : rest = [] ∨ ∃ rest', rest = 38 :: rest') (hname : 61 ∉ name) (hvalue : 38 ∉ value)
    (hs : AtName pre s) :
    scanBody h data s = .next ⟨pre.length + name.length + 1 + value.length,
      pre.length + name.length + 1 + value.length + 1,
      Function.update s.spans (h.readV name) (some (pre.length + name.length + 1,
        pre.length + name.length + 1 + value.length))⟩ := by
  have heq : seek data 61 s.i = pre.length + name.length := by
    have hsplit : data = pre ++ name ++ 61 :: (value ++ rest) := by simp [hdata]
    exact hs.seek_eq hsplit hname
  have hnone : 38 ∉ 61 :: value := by
    rw [List.mem_cons]
    intro hmem
    rcases hmem with hmem | hmem
    · cases hmem
    · exact hvalue hmem
  have hamp : seek data 38 (pre.length + name.length) =
      pre.length + name.length + 1 + value.length := by
    rw [← List.length_append]
    rcases hrest with rfl | ⟨rest', rfl⟩
    · have hsplit : data = pre ++ name ++ (61 :: value) := by simp [hdata]
      rw [seek_end hsplit hnone, hsplit]
      simp only [List.length_append, List.length_cons]
      omega
    · have hsplit : data = pre ++ name ++ (61 :: value) ++ 38 :: rest' := by simp [hdata]
      rw [seek_eq hsplit hnone, List.length_cons]
      omega
  have hread : slice data s.pos (pre.length + name.length) = name := by
    rw [hs.pos]
    exact slice_eq (c := 61 :: value ++ rest) (by simp [hdata]) rfl
  simp only [scanBody, heq, hamp, hread]

/-- A name without a `=` behind it: its value starts behind the end. -/
theorem scanBody_rest (h : CaHashes) {data pre rest : Bytes} {s : Scan}
    (hdata : data = pre ++ rest) (hrest : 61 ∉ rest) (hs : AtName pre s) :
    scanBody h data s = .next ⟨data.length, data.length + 1,
      Function.update s.spans (h.readV rest) (some (data.length + 1, data.length))⟩ := by
  have heq := hs.seek_end hdata hrest
  have hamp : seek data 38 data.length = data.length := by simp [seek]
  have hread : slice data s.pos data.length = rest := by
    rw [hs.pos]
    have hlength : data.length = pre.length + rest.length := by rw [hdata, List.length_append]
    exact slice_eq (c := []) (by rw [hdata, List.append_nil]) hlength
  simp only [scanBody, heq, hamp, hread]

/-- The loop files fields with a `&` behind each, and is then about to read the next name. -/
theorem loop_openForm (h : CaHashes) {data : Bytes} {fields : List (Bytes × Bytes)}
    (hfields : ∀ f ∈ fields, 61 ∉ f.1 ∧ 38 ∉ f.2) (pre : Bytes) {rest : Bytes}
    (hdata : data = pre ++ openForm fields ++ rest) {s : Scan} (hs : AtName pre s)
    (hmore : s.i < data.length) :
    ∃ s', (∀ m, loop (scanMore data) (scanBody h data) (m + fields.length) s =
        loop (scanMore data) (scanBody h data) m s') ∧ AtName (pre ++ openForm fields) s' ∧
      s'.i < data.length ∧ s'.spans = h.fileSpans s.spans pre.length fields := by
  induction fields generalizing pre s with
  | nil => exact ⟨s, fun _ => rfl, by simpa [openForm] using hs, hmore, rfl⟩
  | cons field fields ih =>
    obtain ⟨name, value⟩ := field
    obtain ⟨hname, hvalue⟩ := hfields (name, value) List.mem_cons_self
    have hsplit : data = pre ++ (name ++ 61 :: value) ++ 38 :: (openForm fields ++ rest) := by
      rw [hdata, openForm_cons]
      simp
    have hbody := scanBody_field h hsplit (Or.inr ⟨_, rfl⟩) hname hvalue hs
    let pre' := pre ++ (name ++ 61 :: value) ++ [38]
    have hend : (pre ++ (name ++ 61 :: value)).length =
        pre.length + name.length + 1 + value.length := by
      simp only [List.length_append, List.length_cons]
      omega
    have hpre' : pre'.length = pre.length + name.length + 1 + value.length + 1 := by
      simp only [pre', List.length_append, List.length_cons, List.length_nil]
      omega
    have hdata' : data = pre' ++ openForm fields ++ rest := by simp [pre', hsplit]
    let s₁ : Scan := ⟨pre.length + name.length + 1 + value.length,
      pre.length + name.length + 1 + value.length + 1,
      Function.update s.spans (h.readV name) (some (pre.length + name.length + 1,
        pre.length + name.length + 1 + value.length))⟩
    have hs₁ : AtName pre' s₁ := by
      refine ⟨hpre'.symm, by simp only [s₁, hpre']; omega, ?_⟩
      have hdrop : pre'.drop s₁.i = [38] := by
        simp only [s₁, ← hend]
        exact List.drop_left
      rw [hdrop]
      decide
    have hmore₁ : s₁.i < data.length := by
      rw [hdata', List.length_append, List.length_append, hpre']
      simp only [s₁]
      omega
    obtain ⟨s', hloop, hname', hmore', hspans⟩ := ih
      (fun f hf => hfields f (List.mem_cons_of_mem (name, value) hf)) pre' hdata' hs₁ hmore₁
    refine ⟨s', ?_, ?_, hmore', ?_⟩
    · intro m
      have hcond : scanMore data s = true := decide_eq_true hmore
      rw [List.length_cons, ← Nat.add_assoc, loop_next hcond hbody, hloop]
    · have happend : pre ++ openForm ((name, value) :: fields) = pre' ++ openForm fields := by
        simp [pre', openForm_cons]
      rwa [happend]
    · rw [hspans, hpre', CaHashes.fileSpans]

theorem scan_of_loop {h : CaHashes} {data : Bytes} {n : Nat} {s : Scan}
    (hloop : loop (scanMore data) (scanBody h data) n scanStart = some (.done s)) :
    scan h data = some s.spans := by
  obtain ⟨spans, hspans⟩ := scan_isSome h data
  rw [hspans]
  unfold scan at hspans
  split at hspans
  · rename_i s' hdone
    obtain rfl : s' = s := by
      have heq := loop_unique hdone hloop
      cases heq
      rfl
    exact hspans.symm
  · cases hspans

theorem atName_start : AtName [] scanStart := ⟨rfl, Nat.le_refl _, by simp⟩

/-- What the scan of a body ends with, from what the pass over its last segment assigns. -/
theorem scan_of_last (h : CaHashes) {data last : Bytes} {fields : List (Bytes × Bytes)}
    (hfields : ∀ f ∈ fields, 61 ∉ f.1 ∧ 38 ∉ f.2) (hdata : data = openForm fields ++ last)
    (hne : data ≠ []) {v : FormField} {span : Option (Nat × Nat)}
    (hlast : ∀ s, AtName (openForm fields) s → scanBody h data s =
      .next ⟨data.length, data.length + 1, Function.update s.spans v span⟩) :
    scan h data = some (Function.update (h.fileSpans (fun _ => none) 0 fields) v span) := by
  have hstart : scanStart.i < data.length := List.length_pos_of_ne_nil hne
  have hdata' : data = [] ++ openForm fields ++ last := hdata
  obtain ⟨s, hloop, hs, hmore, hspans⟩ := loop_openForm h hfields [] hdata' atName_start hstart
  have hcond : scanMore data s = true := decide_eq_true hmore
  have hdone := loop_next hcond (hlast s hs) 1
  have hend :
      scanMore data ⟨data.length, data.length + 1, Function.update s.spans v span⟩ = false :=
    decide_eq_false (Nat.lt_irrefl _)
  rw [loop_exit hend, ← hloop] at hdone
  rw [scan_of_loop hdone, hspans]
  rfl

theorem scan_closedForm (h : CaHashes) {fields : List (Bytes × Bytes)} {name value : Bytes}
    (hfields : ∀ f ∈ fields, 61 ∉ f.1 ∧ 38 ∉ f.2) (hname : 61 ∉ name) (hvalue : 38 ∉ value) :
    scan h (openForm fields ++ (name ++ 61 :: value)) =
      some (h.fileSpans (fun _ => none) 0 (fields ++ [(name, value)])) := by
  have hlength : (openForm fields ++ (name ++ 61 :: value)).length =
      (openForm fields).length + name.length + 1 + value.length := by
    simp only [List.length_append, List.length_cons]
    omega
  have hne : openForm fields ++ (name ++ 61 :: value) ≠ [] := by simp
  have hlast : ∀ s, AtName (openForm fields) s →
      scanBody h (openForm fields ++ (name ++ 61 :: value)) s =
        .next ⟨(openForm fields ++ (name ++ 61 :: value)).length,
          (openForm fields ++ (name ++ 61 :: value)).length + 1,
          Function.update s.spans (h.readV name) (some ((openForm fields).length + name.length + 1,
            (openForm fields).length + name.length + 1 + value.length))⟩ := by
    intro s hs
    rw [hlength]
    exact scanBody_field h (List.append_nil _).symm (Or.inl rfl) hname hvalue hs
  rw [scan_of_last h hfields rfl hne hlast, h.fileSpans_append, CaHashes.fileSpans,
    CaHashes.fileSpans, Nat.zero_add]

/-- The scan of a form: every value is found where it stands. -/
theorem scan_encodeForm_eq (h : CaHashes) {fields : List (Bytes × Bytes)}
    (hfields : ∀ f ∈ fields, 61 ∉ f.1 ∧ 38 ∉ f.2) :
    scan h (encodeForm fields) = some (h.fileSpans (fun _ => none) 0 fields) := by
  rcases List.eq_nil_or_concat fields with rfl | ⟨fields, ⟨name, value⟩, rfl⟩
  · have hexit : loop (scanMore (encodeForm [])) (scanBody h (encodeForm [])) 1 scanStart =
        some (.done scanStart) := loop_exit rfl 0
    exact scan_of_loop hexit
  · rw [List.concat_eq_append] at hfields ⊢
    obtain ⟨hname, hvalue⟩ := hfields (name, value) (by simp)
    rw [encodeForm_concat]
    exact scan_closedForm h (fun f hf => hfields f (List.mem_append_left _ hf)) hname hvalue

/-- A body that does not end with a value: the last value starts behind the end of the body. -/
theorem scan_openForm (h : CaHashes) {fields : List (Bytes × Bytes)} {rest : Bytes}
    (hfields : ∀ f ∈ fields, 61 ∉ f.1 ∧ 38 ∉ f.2) (hrest : 61 ∉ rest)
    (hne : openForm fields ++ rest ≠ []) :
    scan h (openForm fields ++ rest) = some (Function.update (h.fileSpans (fun _ => none) 0 fields)
      (h.readV rest) (some ((openForm fields ++ rest).length + 1,
        (openForm fields ++ rest).length))) :=
  scan_of_last h hfields rfl hne fun _ hs => scanBody_rest h rfl hrest hs

theorem CaHashes.found_fileSpans (h : CaHashes) {data pre : Bytes} {fields : List (Bytes × Bytes)}
    (hdata : data = pre ++ encodeForm fields) {spans : FormField → Option (Nat × Nat)}
    {values : FormField → Option Bytes} (hfound : Found data spans values) :
    Found data (h.fileSpans spans pre.length fields) (fields.foldl h.assign values) := by
  induction fields generalizing pre spans values with
  | nil => exact hfound
  | cons field fields ih =>
    obtain ⟨name, value⟩ := field
    obtain ⟨rest, hrest, hnext⟩ : ∃ rest, data = pre ++ name ++ [61] ++ value ++ rest ∧
        (fields ≠ [] → rest = [38] ++ encodeForm fields) := by
      cases fields with
      | nil => exact ⟨[], by simp [hdata, encodeForm], fun h => absurd rfl h⟩
      | cons next fields =>
        exact ⟨[38] ++ encodeForm (next :: fields), by simp [hdata, encodeForm], fun _ => rfl⟩
    have hstart : pre.length + name.length + 1 = (pre ++ name ++ [61]).length := by
      simp only [List.length_append, List.length_cons, List.length_nil]
    have hslice : slice data (pre.length + name.length + 1)
        (pre.length + name.length + 1 + value.length) = value := by
      rw [hstart]
      exact slice_eq hrest rfl
    have hinside : pre.length + name.length + 1 + value.length ≤ data.length := by
      rw [hrest, List.length_append, List.length_append, ← hstart]
      omega
    have hfield := hfound.assign (h := h) (name, value) ⟨by omega, hinside⟩ hslice
    cases fields with
    | nil => exact hfield
    | cons next fields =>
      have hpre : (pre ++ name ++ [61] ++ value ++ [38]).length =
          pre.length + name.length + 1 + value.length + 1 := by
        simp only [List.length_append, List.length_cons, List.length_nil]
      have hdata' : data = pre ++ name ++ [61] ++ value ++ [38] ++ encodeForm (next :: fields) := by
        rw [hrest, hnext (by simp), List.append_assoc _ [38]]
      have hall := ih hdata' hfield
      rw [hpre] at hall
      exact hall

theorem scan_encodeForm (h : CaHashes) {fields : List (Bytes × Bytes)}
    (hfields : ∀ f ∈ fields, 61 ∉ f.1 ∧ 38 ∉ f.2) :
    ∃ spans, scan h (encodeForm fields) = some spans ∧
      Found (encodeForm fields) spans (fields.foldl h.assign fun _ => none) := by
  have hstart : Found (encodeForm fields) (fun _ => none) fun _ => none := by
    intro v
    exact ⟨rfl, by simp⟩
  have hdata : encodeForm fields = [] ++ encodeForm fields := rfl
  exact ⟨_, scan_encodeForm_eq h hfields, h.found_fileSpans hdata hstart⟩

/-- A form that has all four fields is read as it was written. -/
theorem readForm_encodeForm (h : CaHashes) {fields : List (Bytes × Bytes)}
    (hfields : ∀ f ∈ fields, 61 ∉ f.1 ∧ 38 ∉ f.2) {interface method pts parameter : Bytes}
    (hinterface : fields.foldl h.assign (fun _ => none) .interface = some interface)
    (hmethod : fields.foldl h.assign (fun _ => none) .method = some method)
    (hpts : fields.foldl h.assign (fun _ => none) .pts = some pts)
    (hparameter : fields.foldl h.assign (fun _ => none) .parameter = some parameter) :
    readForm h (encodeForm fields) =
      some ⟨interface, method, pts, nulPadded parameter, parameter.length⟩ := by
  obtain ⟨spans, hspans, hfound⟩ := scan_encodeForm h hfields
  have hvalue : ∀ v value, fields.foldl h.assign (fun _ => none) v = some value →
      ∃ p, spans v = some p ∧ (p.1 ≤ p.2 ∧ p.2 ≤ (encodeForm fields).length) ∧
        slice (encodeForm fields) p.1 p.2 = value := by
    intro v value hv
    obtain ⟨hmap, hle⟩ := hfound v
    rw [hv] at hmap
    obtain ⟨p, hp, hslice⟩ := Option.map_eq_some_iff.mp hmap
    exact ⟨p, hp, hle p hp, hslice⟩
  obtain ⟨i, hi, _, rfl⟩ := hvalue _ _ hinterface
  obtain ⟨m, hm, _, rfl⟩ := hvalue _ _ hmethod
  obtain ⟨t, ht, _, rfl⟩ := hvalue _ _ hpts
  obtain ⟨p, hp, ⟨hle, hinside⟩, rfl⟩ := hvalue _ _ hparameter
  have hlength : (slice (encodeForm fields) p.1 p.2).length = p.2 - p.1 := by
    simp only [slice, List.length_take, List.length_drop]
    omega
  have hcopy : strncpy ((encodeForm fields).drop p.1) (p.2 - p.1) =
      nulPadded (slice (encodeForm fields) p.1 p.2) := by
    rw [nulPadded, hlength, slice, strncpy_take _ (Nat.le_refl _)]
  have hlen : (p.2 : Int) - p.1 = (slice (encodeForm fields) p.1 p.2).length := by
    rw [hlength]
    omega
  rw [readForm, hspans, Option.bind_some, hi, hm, ht, hp]
  simp only [if_pos hle, hcopy, hlen]

end PyAgent
