import PyAgent.Act
import PyAgent.Streaming.Delimited
import Mathlib.Data.Nat.Digits.Lemmas

/-!
# The HTTP response of the consumer agent

`act_done_callback` of ca.cc looks for the second line of a result and writes it
behind a header of its own. `SelfConsistent` is what a client needs of these bytes: a
decimal `Content-Length` and that many bytes.
-/

namespace PyAgent
set_option autoImplicit false

open Streaming

/-! ## Decimal numbers -/

def digit (d : Nat) : UInt8 := UInt8.ofNat (48 + d)

def IsDigit (c : UInt8) : Prop := 48 ≤ c.toNat ∧ c.toNat ≤ 57

def formatNat (n : Nat) : Bytes :=
  if n = 0 then [digit 0] else ((Nat.digits 10 n).map digit).reverse

/-- `%d` -/
def formatInt (x : Int) : Bytes :=
  if x < 0 then ascii "-" ++ formatNat x.natAbs else formatNat x.toNat

def readDecimal (ds : Bytes) : Nat := ds.foldl (fun v d => 10 * v + (d.toNat - 48)) 0

theorem digit_toNat {d : Nat} (hd : d < 10) : (digit d).toNat = 48 + d := by
  rw [digit, UInt8.toNat_ofNat']
  omega

theorem readDecimal_reverse {ds : List Nat} (hds : ∀ d ∈ ds, d < 10) :
    readDecimal (ds.map digit).reverse = Nat.ofDigits 10 ds := by
  induction ds with
  | nil => rfl
  | cons d ds ih =>
    obtain ⟨hd, hrest⟩ := List.forall_mem_cons.mp hds
    have hdigit := digit_toNat hd
    have ih := ih hrest
    unfold readDecimal at ih ⊢
    rw [List.map_cons, List.reverse_cons, List.foldl_append, ih, Nat.ofDigits_cons]
    simp only [List.foldl_cons, List.foldl_nil, hdigit, Nat.add_sub_cancel_left]
    exact Nat.add_comm _ _

theorem readDecimal_formatNat (n : Nat) : readDecimal (formatNat n) = n := by
  unfold formatNat
  split
  · rename_i hn
    rw [hn]
    rfl
  · rw [readDecimal_reverse fun d hd => Nat.digits_lt_base (by omega) hd, Nat.ofDigits_digits]

theorem formatNat_isDigit {n : Nat} {c : UInt8} (hc : c ∈ formatNat n) : IsDigit c := by
  have hdigit : ∀ d, d < 10 → IsDigit (digit d) := by
    intro d hd
    have := digit_toNat hd
    unfold IsDigit
    omega
  unfold formatNat at hc
  split at hc
  · rw [List.mem_singleton.mp hc]
    exact hdigit 0 (by omega)
  · obtain ⟨d, hd, rfl⟩ := List.mem_map.mp (List.mem_reverse.mp hc)
    exact hdigit d (Nat.digits_lt_base (by omega) hd)

theorem formatNat_ne_nil (n : Nat) : formatNat n ≠ [] := by
  unfold formatNat
  split
  · exact List.cons_ne_nil _ _
  · rename_i hn
    simpa using Nat.digits_ne_nil_iff_ne_zero.mpr hn

/-! ## act_done_callback -/

def httpHeader : Bytes :=
  strncpy (ascii "HTTP/1.1 200 OK\r\nContent-Type: text/plain\r\nContent-Length: ") 59

/-- The loop over `result` from index `i` on, which sets `as` behind the first newline and `ae` at
the second. -/
def newlineScan : Bytes → Int → Int → Int → Int × Int
  | [], _, as, ae => (as, ae)
  | c :: cs, i, as, ae =>
    if c = 10 then
      if as = 0 then newlineScan cs (i + 1) (i + 1) ae
      else if ae = 0 then newlineScan cs (i + 1) as i
      else newlineScan cs (i + 1) as ae
    else newlineScan cs (i + 1) as ae

/-- What `%.*s` prints of a string that need not end with a NUL. -/
def formatStr (precision : Int) (s : Bytes) : Bytes :=
  (s.take precision.toNat).takeWhile (· ≠ 0)

/-- The bytes handed to `uv_write`; `none` when `256 + content_len + FK` overflows. -/
def actDoneCallback (resp : ActResponse) : Option Bytes :=
  let (as, ae) := newlineScan (resp.result.take resp.dataLen.toNat) 0 0 0
  let contentLen := ae - as
  if contentLen ≤ 0 then
    some (httpHeader ++ formatInt contentLen ++ ascii "\r\n\r\n" ++ formatInt 0)
  else if 256 + contentLen + 1 < 2147483648 then
    some (httpHeader ++ formatInt contentLen ++ ascii "\r\n\r\n" ++
      formatStr contentLen (resp.result.drop as.toNat))
  else none

/-- A `Content-Length` and a body of that length. -/
def SelfConsistent (bs : Bytes) : Prop :=
  ∃ ds body, bs = httpHeader ++ ds ++ ascii "\r\n\r\n" ++ body ∧ ds ≠ [] ∧ (∀ d ∈ ds, IsDigit d) ∧
    body.length = readDecimal ds

/-- A response with this body, and with its length for a `Content-Length`. -/
def HttpBody (bs body : Bytes) : Prop :=
  ∃ ds, bs = httpHeader ++ ds ++ ascii "\r\n\r\n" ++ body ∧ ds ≠ [] ∧ (∀ d ∈ ds, IsDigit d) ∧
    body.length = readDecimal ds

/-- The second line of the result is there, not empty, free of NULs, and no longer than the callback
can count. -/
def HasLine (result : Bytes) : Prop :=
  ∃ first second rest, result = first ++ 10 :: (second ++ 10 :: rest) ∧ 10 ∉ first ∧ 10 ∉ second ∧
    second ≠ [] ∧ 0 ∉ second ∧ second.length + 257 < 2147483648

/-! ## The loop over the result -/

theorem newlineScan_skip {cs : Bytes} (hcs : 10 ∉ cs) (rest : Bytes) (i as ae : Int) :
    newlineScan (cs ++ rest) i as ae = newlineScan rest (i + cs.length) as ae := by
  induction cs generalizing i with
  | nil => simp
  | cons c cs ih =>
    have hc : ¬ c = 10 := fun h => hcs (h ▸ List.mem_cons_self)
    have hrest : 10 ∉ cs := fun h => hcs (List.mem_cons_of_mem c h)
    rw [List.cons_append, newlineScan, if_neg hc, ih hrest, List.length_cons]
    congr 1
    push_cast
    omega

theorem newlineScan_found {as ae : Int} (has : as ≠ 0) (hae : ae ≠ 0) (cs : Bytes) (i : Int) :
    newlineScan cs i as ae = (as, ae) := by
  induction cs generalizing i with
  | nil => rfl
  | cons c cs ih =>
    rw [newlineScan, if_neg has, if_neg hae, ih, ite_self]

theorem newlineScan_no_line {cs : Bytes} (hcs : 10 ∉ cs) : newlineScan cs 0 0 0 = (0, 0) := by
  have h := newlineScan_skip hcs [] 0 0 0
  rw [List.append_nil] at h
  exact h

theorem newlineScan_one_line {first cs : Bytes} (hfirst : 10 ∉ first) (hcs : 10 ∉ cs) :
    newlineScan (first ++ 10 :: cs) 0 0 0 = ((first.length : Int) + 1, 0) := by
  have h := newlineScan_skip hcs [] ((first.length : Int) + 1) (first.length + 1) 0
  rw [List.append_nil] at h
  rw [newlineScan_skip hfirst, newlineScan, if_pos rfl, if_pos rfl, Int.zero_add, h]
  rfl

theorem newlineScan_two_lines {first second : Bytes} (hfirst : 10 ∉ first) (hsecond : 10 ∉ second)
    (rest : Bytes) : newlineScan (first ++ 10 :: (second ++ 10 :: rest)) 0 0 0 =
      ((first.length : Int) + 1, (first.length : Int) + 1 + second.length) := by
  have has : (first.length : Int) + 1 ≠ 0 := by omega
  have hae : (first.length : Int) + 1 + second.length ≠ 0 := by omega
  rw [newlineScan_skip hfirst, newlineScan, if_pos rfl, if_pos rfl, Int.zero_add,
    newlineScan_skip hsecond, newlineScan, if_pos rfl, if_neg has, if_pos rfl,
    newlineScan_found has hae]

/-! ## Reading a response back -/

theorem not_isDigit_cr : ¬ IsDigit 13 := by
  unfold IsDigit
  decide

theorem formatInt_no_cr (x : Int) : 13 ∉ formatInt x := by
  have hnat : ∀ n, 13 ∉ formatNat n := fun n h => not_isDigit_cr (formatNat_isDigit h)
  unfold formatInt
  split
  · intro h
    rcases List.mem_append.mp h with h | h
    · revert h
      decide
    · exact hnat _ h
  · exact hnat _

/-- The number is what stands before the first carriage return. -/
theorem httpBody_iff {ns body body' : Bytes} (hns : 13 ∉ ns) :
    HttpBody (httpHeader ++ ns ++ ascii "\r\n\r\n" ++ body) body' ↔
      body' = body ∧ ns ≠ [] ∧ (∀ d ∈ ns, IsDigit d) ∧ body.length = readDecimal ns := by
  constructor
  · intro h
    obtain ⟨ds, heq, hne, hdigits, hlength⟩ := h
    have hds : 13 ∉ ds := fun h => not_isDigit_cr (hdigits _ h)
    have hcrlf : ascii "\r\n\r\n" = [13, 10, 13, 10] := by decide
    rw [hcrlf] at heq
    simp only [List.append_assoc, List.append_cancel_left_eq, List.cons_append,
      List.nil_append] at heq
    obtain ⟨rfl, hbody⟩ := append_symbol_inj hns hds heq
    obtain rfl : body = body' := by simpa using hbody
    exact ⟨rfl, hne, hdigits, hlength⟩
  · rintro ⟨rfl, h⟩
    exact ⟨ns, rfl, h⟩

theorem selfConsistent_iff_httpBody (bs : Bytes) : SelfConsistent bs ↔ ∃ body, HttpBody bs body :=
  exists_comm

theorem selfConsistent_iff {ns body : Bytes} (hns : 13 ∉ ns) :
    SelfConsistent (httpHeader ++ ns ++ ascii "\r\n\r\n" ++ body) ↔
      ns ≠ [] ∧ (∀ d ∈ ns, IsDigit d) ∧ body.length = readDecimal ns := by
  simp only [selfConsistent_iff_httpBody, httpBody_iff hns, exists_eq_left]

theorem not_selfConsistent_of_nonpos {x : Int} (hx : x ≤ 0) :
    ¬ SelfConsistent (httpHeader ++ formatInt x ++ ascii "\r\n\r\n" ++ formatInt 0) := by
  intro h
  obtain ⟨_, hdigits, hlength⟩ := (selfConsistent_iff (formatInt_no_cr x)).mp h
  by_cases hneg : x < 0
  · have hminus : (45 : UInt8) ∈ formatInt x := by
      rw [formatInt, if_pos hneg]
      exact List.mem_append_left _ (by decide)
    have hdigit := hdigits _ hminus
    unfold IsDigit at hdigit
    revert hdigit
    decide
  · obtain rfl : x = 0 := by omega
    have hread : readDecimal (formatInt 0) = 0 := readDecimal_formatNat 0
    rw [hread] at hlength
    revert hlength
    decide

theorem httpBody_formatInt_iff (n : Nat) (body body' : Bytes) :
    HttpBody (httpHeader ++ formatInt n ++ ascii "\r\n\r\n" ++ body) body' ↔
      body' = body ∧ body.length = n := by
  have hformat : formatInt n = formatNat n := by
    rw [formatInt, if_neg (by omega), Int.toNat_natCast]
  rw [httpBody_iff (formatInt_no_cr n), hformat, readDecimal_formatNat]
  constructor
  · exact fun h => ⟨h.1, h.2.2.2⟩
  · exact fun h => ⟨h.1, formatNat_ne_nil n, fun d hd => formatNat_isDigit hd, h.2⟩

theorem selfConsistent_formatInt_iff (n : Nat) (body : Bytes) :
    SelfConsistent (httpHeader ++ formatInt n ++ ascii "\r\n\r\n" ++ body) ↔ body.length = n := by
  simp only [selfConsistent_iff_httpBody, httpBody_formatInt_iff, exists_eq_left]

theorem formatStr_of_no_nul {s : Bytes} (h0 : 0 ∉ s) (rest : Bytes) :
    formatStr s.length (s ++ rest) = s := by
  rw [formatStr, Int.toNat_natCast, List.take_left, List.takeWhile_eq_self_iff]
  intro c hc
  rw [decide_eq_true_eq]
  rintro rfl
  exact h0 hc

/-- `%.*s` writes as many bytes as it is told to when there is no NUL among them. -/
theorem formatStr_length_iff (s rest : Bytes) :
    (formatStr s.length (s ++ rest)).length = s.length ↔ 0 ∉ s := by
  constructor
  · intro hlen h0
    rw [formatStr, Int.toNat_natCast, List.take_left] at hlen
    have hself := (List.takeWhile_prefix _).eq_of_length hlen
    have hne := List.takeWhile_eq_self_iff.mp hself 0 h0
    simp at hne
  · intro h0
    rw [formatStr_of_no_nul h0]

/-! ## When a response is consistent -/

theorem hasLine_iff {first second : Bytes} (hfirst : 10 ∉ first) (hsecond : 10 ∉ second)
    (rest : Bytes) : HasLine (first ++ 10 :: (second ++ 10 :: rest)) ↔
      second ≠ [] ∧ 0 ∉ second ∧ second.length + 257 < 2147483648 := by
  constructor
  · intro h
    obtain ⟨first', second', rest', heq, hfirst', hsecond', h⟩ := h
    obtain ⟨rfl, htail⟩ := append_symbol_inj hfirst hfirst' heq
    obtain ⟨rfl, _⟩ := append_symbol_inj hsecond hsecond' htail
    exact h
  · intro h
    exact ⟨first, second, rest, rfl, hfirst, hsecond, h⟩

theorem drop_line (first cs : Bytes) :
    (first ++ 10 :: cs).drop ((first.length : Int) + 1).toNat = cs := by
  have hnat : ((first.length : Int) + 1).toNat = (first ++ [10]).length := by
    rw [List.length_append, List.length_singleton]
    omega
  have hsplit : first ++ 10 :: cs = (first ++ [10]) ++ cs := by simp
  rw [hnat, hsplit, List.drop_left]

/-- The second line is what is sent. -/
theorem actDoneCallback_two_lines {resp : ActResponse} (hlen : resp.dataLen = resp.result.length)
    {first second rest : Bytes} (hresult : resp.result = first ++ 10 :: (second ++ 10 :: rest))
    (hfirst : 10 ∉ first) (hsecond : 10 ∉ second) (hne : second ≠ []) :
    actDoneCallback resp = if second.length + 257 < 2147483648 then
      some (httpHeader ++ formatInt second.length ++ ascii "\r\n\r\n" ++
        formatStr second.length (second ++ 10 :: rest)) else none := by
  have hall : resp.result.take resp.dataLen.toNat = resp.result := by
    rw [hlen, Int.toNat_natCast, List.take_length]
  have hscan := newlineScan_two_lines hfirst hsecond rest
  have hcontent :
      (first.length : Int) + 1 + second.length - (first.length + 1) = second.length := by omega
  have hpos := List.length_pos_of_ne_nil hne
  rw [actDoneCallback, hall, hresult, hscan]
  simp only [hcontent, drop_line]
  rw [if_neg (by omega)]
  congr 1
  rw [eq_iff_iff]
  omega

theorem two_lines_consistent_iff {resp : ActResponse} (hlen : resp.dataLen = resp.result.length)
    {first second rest : Bytes} (hresult : resp.result = first ++ 10 :: (second ++ 10 :: rest))
    (hfirst : 10 ∉ first) (hsecond : 10 ∉ second) :
    (∃ bs, actDoneCallback resp = some bs ∧ SelfConsistent bs) ↔ HasLine resp.result := by
  rw [hresult, hasLine_iff hfirst hsecond]
  by_cases hempty : second = []
  · have hall : resp.result.take resp.dataLen.toNat = resp.result := by
      rw [hlen, Int.toNat_natCast, List.take_length]
    have hcontent : (first.length : Int) + 1 + second.length - (first.length + 1) ≤ 0 := by
      rw [hempty, List.length_nil]
      omega
    rw [actDoneCallback, hall, hresult, newlineScan_two_lines hfirst hsecond rest]
    simp only [if_pos hcontent, Option.some.injEq, exists_eq_left']
    apply iff_of_false
    · exact not_selfConsistent_of_nonpos hcontent
    · exact fun h => h.1 hempty
  · rw [actDoneCallback_two_lines hlen hresult hfirst hsecond hempty]
    by_cases hroom : second.length + 257 < 2147483648
    · rw [if_pos hroom]
      simp only [Option.some.injEq, exists_eq_left', selfConsistent_formatInt_iff,
        formatStr_length_iff]
      constructor
      · exact fun h => ⟨hempty, h, hroom⟩
      · exact fun h => h.2.1
    · rw [if_neg hroom]
      apply iff_of_false
      · rintro ⟨bs, hbs, _⟩
        cases hbs
      · exact fun h => hroom h.2.2

/-- A response is consistent if and only if the result has a second line that is not empty, free of
NULs and not too long. -/
theorem response_consistent_iff {resp : ActResponse} (hlen : resp.dataLen = resp.result.length) :
    (∃ bs, actDoneCallback resp = some bs ∧ SelfConsistent bs) ↔ HasLine resp.result := by
  have hall : resp.result.take resp.dataLen.toNat = resp.result := by
    rw [hlen, Int.toNat_natCast, List.take_length]
  by_cases hnewline : 10 ∈ resp.result
  · obtain ⟨first, cs, hresult, hfirst⟩ := List.eq_append_cons_of_mem hnewline
    by_cases hnewline' : 10 ∈ cs
    · obtain ⟨second, rest, rfl, hsecond⟩ := List.eq_append_cons_of_mem hnewline'
      exact two_lines_consistent_iff hlen hresult hfirst hsecond
    · have hcontent : (0 : Int) - (first.length + 1) ≤ 0 := by omega
      rw [actDoneCallback, hall, hresult, newlineScan_one_line hfirst hnewline']
      simp only [if_pos hcontent, Option.some.injEq, exists_eq_left']
      apply iff_of_false
      · exact not_selfConsistent_of_nonpos hcontent
      · intro h
        obtain ⟨first', second, rest, heq, hfirst', _⟩ := h
        obtain ⟨_, rfl⟩ := append_symbol_inj hfirst hfirst' heq
        apply hnewline'
        simp
  · rw [actDoneCallback, hall, newlineScan_no_line hnewline]
    have hcontent : (0 : Int) - 0 ≤ 0 := by omega
    simp only [if_pos hcontent, Option.some.injEq, exists_eq_left']
    apply iff_of_false
    · exact not_selfConsistent_of_nonpos hcontent
    · intro h
      obtain ⟨first, second, rest, heq, _⟩ := h
      apply hnewline
      rw [heq]
      simp

/-- The provider's answer for a hash, as the callback gets it. -/
theorem response_consistent_iff_hash : ∃ bs,
    actDoneCallback ⟨1, 8, [49, 10, 49, 50, 51, 52, 53, 10]⟩ = some bs ∧ SelfConsistent bs := by
  let resp : ActResponse := ⟨1, 8, [49, 10, 49, 50, 51, 52, 53, 10]⟩
  have hlen : resp.dataLen = resp.result.length := rfl
  apply (response_consistent_iff hlen).mpr
  exact ⟨[49], [49, 50, 51, 52, 53], [], rfl, by simp, by simp, by simp, by simp, by simp⟩

/-- One line only, which is how a null value is answered: the length written is -2. -/
theorem response_inconsistent :
    ¬ ∃ bs, actDoneCallback ⟨1, 2, [50, 10]⟩ = some bs ∧ SelfConsistent bs := by
  intro h
  obtain ⟨bs, hbs, hconsistent⟩ := h
  have hscan : newlineScan [50, 10] 0 0 0 = (2, 0) := rfl
  have hwritten : actDoneCallback ⟨1, 2, [50, 10]⟩ =
      some (httpHeader ++ formatInt (-2) ++ ascii "\r\n\r\n" ++ formatInt 0) := by
    rw [actDoneCallback, show ([50, 10] : Bytes).take (2 : Int).toNat = [50, 10] from rfl, hscan]
    rfl
  obtain rfl := Option.some.inj (hwritten.symm.trans hbs)
  exact not_selfConsistent_of_nonpos (by omega) hconsistent

end PyAgent
