import PyAgent.Form

/-!
# strn_urlcpy in memory

`strn_urlcpy` of ca.cc with its two indices, and the offsets at which it reads. What it
stores is what `strnUrlcpy` computes from the text, and texts are made of tokens.
-/

namespace PyAgent
set_option autoImplicit false

open Streaming

/-- `dest` is the memory behind the destination and `reads` the offsets of `src` read so far. -/
structure UrlCopy where
  i : Nat
  j : Nat
  dest : Nat → UInt8
  reads : List Nat

def urlcpyMore (n : Int) (s : UrlCopy) : Bool := s.i < n

/-- The look-ahead is an `int`; a digit that is not hexadecimal leaves `hi` unassigned. -/
def urlcpyBody (src : Nat → UInt8) (n : Int) (s : UrlCopy) : Flow UrlCopy :=
  if src s.i = 37 ∧ toInt32 (s.i + 2) < n then
    match hex2int (src (s.i + 1)), hex2int (src (s.i + 2)) with
    | some hi, some lo => .next
        { i := s.i + 3
          j := s.j + 1
          dest := Function.update s.dest s.j (UInt8.ofNat (hi * 16 + lo))
          reads := s.reads ++ [s.i, s.i + 1, s.i + 2] }
    | _, _ => .fault
  else .next
    { i := s.i + 1
      j := s.j + 1
      dest := Function.update s.dest s.j (src s.i)
      reads := s.reads ++ [s.i, s.i] }

def strnUrlcpyAt (dest src : Nat → UInt8) (n : Int) : Option UrlCopy :=
  match loop (urlcpyMore n) (urlcpyBody src n) (n.toNat + 1) ⟨0, 0, dest, []⟩ with
  | some (.done s) => some s
  | _ => none

/-! ## What memory holds -/

/-- The bytes of `text` stand in memory from `i` on. -/
def Holds (mem : Nat → UInt8) (i : Nat) (text : Bytes) : Prop :=
  ∀ k c, text[k]? = some c → mem (i + k) = c

def storeAll (mem : Nat → UInt8) (j : Nat) : Bytes → Nat → UInt8
  | [] => mem
  | c :: cs => storeAll (Function.update mem j c) (j + 1) cs

section
variable {mem : Nat → UInt8} {i j k : Nat} {c : UInt8} {cs : Bytes}

theorem Holds.head (h : Holds mem i (c :: cs)) : mem i = c := h 0 c rfl

theorem Holds.tail (h : Holds mem i (c :: cs)) : Holds mem (i + 1) cs := by
  intro k d hk
  rw [Nat.add_assoc, Nat.add_comm 1 k]
  exact h (k + 1) d hk

theorem storeAll_of_lt (hk : k < j) : storeAll mem j cs k = mem k := by
  induction cs generalizing mem j with
  | nil => rfl
  | cons c cs ih =>
    rw [storeAll, ih (by omega)]
    exact Function.update_of_ne (by omega) _ _

theorem storeAll_of_le (hk : j + cs.length ≤ k) : storeAll mem j cs k = mem k := by
  induction cs generalizing mem j with
  | nil => rfl
  | cons c cs ih =>
    rw [List.length_cons] at hk
    rw [storeAll, ih (by omega)]
    exact Function.update_of_ne (by omega) _ _

theorem holds_storeAll : Holds (storeAll mem j cs) j cs := by
  induction cs generalizing mem j with
  | nil =>
    intro k d hk
    simp at hk
  | cons c cs ih =>
    intro k d hk
    rw [storeAll]
    cases k with
    | zero =>
      rw [List.getElem?_cons_zero, Option.some.injEq] at hk
      rw [Nat.add_zero j, storeAll_of_lt (Nat.lt_add_one j), Function.update_self, hk]
    | succ k =>
      rw [List.getElem?_cons_succ] at hk
      rw [← ih k d hk]
      congr 1
      omega

end

theorem holds_getD (text : Bytes) : Holds (fun k => text.getD k 0) 0 text := by
  intro k c hk
  simp [List.getD_eq_getElem?_getD, hk]

/-! ## The loop stores what `strnUrlcpy` computes -/

section
variable {src : Nat → UInt8} {n : Nat} {s : UrlCopy} {c x y : UInt8} {text : Bytes}

theorem toInt32_ahead {i : Nat} (hn : n < 2147483647) (hi : i < n) :
    toInt32 ((i : Int) + 2) = i + 2 :=
  toInt32_of_isInt32 ⟨by omega, by omega⟩

theorem urlcpyMore_cons (hlen : s.i + (c :: text).length = n) : urlcpyMore n s = true := by
  rw [List.length_cons] at hlen
  exact decide_eq_true (by omega)

theorem urlcpyBody_copy (hn : n < 2147483647) (hsrc : Holds src s.i (c :: text))
    (hlen : s.i + (c :: text).length = n) (hc : c ≠ 37 ∨ text.length < 2) :
    urlcpyBody src n s = .next
      ⟨s.i + 1, s.j + 1, Function.update s.dest s.j c, s.reads ++ [s.i, s.i]⟩ := by
  rw [List.length_cons] at hlen
  have hplain : ¬ (src s.i = 37 ∧ toInt32 ((s.i : Int) + 2) < n) := by
    rw [hsrc.head, toInt32_ahead hn (by omega)]
    rintro ⟨hpercent, hahead⟩
    rcases hc with hc | hshort
    · exact hc hpercent
    · omega
  rw [urlcpyBody, if_neg hplain, hsrc.head]

theorem urlcpyBody_escape (hn : n < 2147483647) (hsrc : Holds src s.i (37 :: x :: y :: text))
    (hlen : s.i + (37 :: x :: y :: text).length = n) :
    urlcpyBody src n s = match hex2int x, hex2int y with
      | some hi, some lo => .next ⟨s.i + 3, s.j + 1,
          Function.update s.dest s.j (UInt8.ofNat (hi * 16 + lo)),
          s.reads ++ [s.i, s.i + 1, s.i + 2]⟩
      | _, _ => .fault := by
  simp only [List.length_cons] at hlen
  have hahead : src s.i = 37 ∧ toInt32 ((s.i : Int) + 2) < n := by
    rw [toInt32_ahead hn (by omega)]
    exact ⟨hsrc.head, by omega⟩
  rw [urlcpyBody, if_pos hahead, hsrc.tail.head, hsrc.tail.tail.head]

end

/-- Within `m` passes the loop stores `copied` behind `s` and reads nothing at or behind `n`; for a
text that cannot be copied it goes wrong. -/
def Copies (src : Nat → UInt8) (n m : Nat) (s : UrlCopy) : Option Bytes → Prop
  | some copied => ∃ reads, (∀ r ∈ reads, r < n) ∧
      loop (urlcpyMore n) (urlcpyBody src n) m s =
        some (.done ⟨n, s.j + copied.length, storeAll s.dest s.j copied, s.reads ++ reads⟩)
  | none => loop (urlcpyMore n) (urlcpyBody src n) m s = some .crash

namespace Copies
variable {src : Nat → UInt8} {n m : Nat} {s : UrlCopy} {copied : Option Bytes}

theorem mono (h : Copies src n m s copied) {m' : Nat} (hm : m ≤ m') : Copies src n m' s copied := by
  cases copied with
  | none => exact loop_mono hm h
  | some d =>
    obtain ⟨reads, hreads, hloop⟩ := h
    exact ⟨reads, hreads, loop_mono hm hloop⟩

theorem cons {i : Nat} {b : UInt8} {reads : List Nat} (hreads : ∀ r ∈ reads, r < n)
    (hmore : urlcpyMore n s = true)
    (hbody : urlcpyBody src n s =
      .next ⟨i, s.j + 1, Function.update s.dest s.j b, s.reads ++ reads⟩)
    (h : Copies src n m ⟨i, s.j + 1, Function.update s.dest s.j b, s.reads ++ reads⟩ copied) :
    Copies src n (m + 1) s (copied.map (b :: ·)) := by
  have hloop := loop_next hmore hbody m
  cases copied with
  | none => exact hloop.trans h
  | some d =>
    obtain ⟨reads', hreads', hrest⟩ := h
    refine ⟨reads ++ reads', ?_, ?_⟩
    · intro r hr
      rcases List.mem_append.mp hr with hr | hr
      · exact hreads r hr
      · exact hreads' r hr
    · rw [hloop, hrest, List.length_cons, storeAll, List.append_assoc, Nat.add_assoc,
        Nat.add_comm 1 d.length]

end Copies

theorem strnUrlcpy_plain {c : UInt8} {text : Bytes} (h : c ≠ 37 ∨ text.length < 2) :
    strnUrlcpy (c :: text) = (strnUrlcpy text).map (c :: ·) := by
  rcases text with _ | ⟨x, _ | ⟨y, text⟩⟩
  · rfl
  · rfl
  · have hc : c ≠ 37 := by
      rcases h with h | h
      · exact h
      · simp only [List.length_cons] at h
        omega
    rw [strnUrlcpy, if_neg hc]

section
variable {src : Nat → UInt8} {n : Nat} {s : UrlCopy} {c x y : UInt8} {text : Bytes}

theorem copies_plain (hn : n < 2147483647) (hsrc : Holds src s.i (c :: text))
    (hlen : s.i + (c :: text).length = n) (hc : c ≠ 37 ∨ text.length < 2)
    (hrest : ∀ s' : UrlCopy, s'.i = s.i + 1 →
      Copies src n (text.length + 1) s' (strnUrlcpy text)) :
    Copies src n ((c :: text).length + 1) s (strnUrlcpy (c :: text)) := by
  have hreads : ∀ r ∈ [s.i, s.i], r < n := by
    rw [List.length_cons] at hlen
    simp only [List.mem_cons, List.not_mem_nil, or_false, or_self, forall_eq]
    omega
  rw [strnUrlcpy_plain hc]
  exact (hrest _ rfl).cons hreads (urlcpyMore_cons hlen) (urlcpyBody_copy hn hsrc hlen hc)

theorem copies_escape (hn : n < 2147483647) (hsrc : Holds src s.i (37 :: x :: y :: text))
    (hlen : s.i + (37 :: x :: y :: text).length = n)
    (hrest : ∀ s' : UrlCopy, s'.i = s.i + 3 →
      Copies src n (text.length + 1) s' (strnUrlcpy text)) :
    Copies src n ((37 :: x :: y :: text).length + 1) s (strnUrlcpy (37 :: x :: y :: text)) := by
  have hbody := urlcpyBody_escape hn hsrc hlen
  have hmore := urlcpyMore_cons hlen
  rw [strnUrlcpy, if_pos rfl]
  cases hx : hex2int x with
  | none =>
    rw [hx] at hbody
    exact loop_fault hmore hbody _
  | some hi =>
    cases hy : hex2int y with
    | none =>
      rw [hx, hy] at hbody
      exact loop_fault hmore hbody _
    | some lo =>
      rw [hx, hy] at hbody
      have hreads : ∀ r ∈ [s.i, s.i + 1, s.i + 2], r < n := by
        simp only [List.length_cons] at hlen
        simp only [List.mem_cons, List.not_mem_nil, or_false, forall_eq_or_imp, forall_eq]
        omega
      have hfuel : text.length + 1 + 1 ≤ (37 :: x :: y :: text).length + 1 := by
        simp only [List.length_cons]
        omega
      have hall := ((hrest _ rfl).cons hreads hmore hbody).mono hfuel
      cases hr : strnUrlcpy text with
      | none =>
        rw [hr] at hall
        exact hall
      | some d =>
        rw [hr] at hall
        exact hall

end

/-- From any point on, the loop copies the rest of the text. -/
theorem loop_urlcpy {src : Nat → UInt8} {n : Nat} (hn : n < 2147483647) (text : Bytes)
    {s : UrlCopy} (hsrc : Holds src s.i text) (hlen : s.i + text.length = n) :
    Copies src n (text.length + 1) s (strnUrlcpy text) := by
  induction text using strnUrlcpy.induct generalizing s with
  | case1 =>
    have hexit : urlcpyMore n s = false := by
      rw [List.length_nil] at hlen
      exact decide_eq_false (by omega)
    refine ⟨[], by simp, ?_⟩
    rw [loop_exit hexit, List.append_nil]
    obtain rfl : n = s.i := hlen.symm
    rfl
  | case2 x y text hi lo d _ _ _ ih | case3 x y text _ ih =>
    apply copies_escape hn hsrc hlen
    intro s' hs'
    have hsrc' := hsrc.tail.tail.tail
    rw [← hs'] at hsrc'
    simp only [List.length_cons] at hlen
    exact ih hsrc' (by omega)
  | case4 c x y text hc ih =>
    apply copies_plain hn hsrc hlen (Or.inl hc)
    intro s' hs'
    have hsrc' := hsrc.tail
    rw [← hs'] at hsrc'
    rw [List.length_cons] at hlen
    exact ih hsrc' (by omega)
  | case5 c text hshort ih =>
    have hlt : text.length < 2 := by
      rcases text with _ | ⟨x, _ | ⟨y, text⟩⟩
      · simp
      · simp
      · exact absurd rfl (hshort x y text)
    apply copies_plain hn hsrc hlen (Or.inr hlt)
    intro s' hs'
    have hsrc' := hsrc.tail
    rw [← hs'] at hsrc'
    rw [List.length_cons] at hlen
    exact ih hsrc' (by omega)

/-- `strn_urlcpy` stores the bytes `strnUrlcpy` computes, returns their number and reads only the
text; it goes wrong exactly on the texts that cannot be copied. -/
theorem strnUrlcpyAt_eq {src : Nat → UInt8} {text : Bytes} (hn : text.length < 2147483647)
    (hsrc : Holds src 0 text) (dest : Nat → UInt8) :
    match strnUrlcpy text with
    | some d => ∃ s, strnUrlcpyAt dest src text.length = some s ∧ s.j = d.length ∧
        s.dest = storeAll dest 0 d ∧ ∀ r ∈ s.reads, r < text.length
    | none => strnUrlcpyAt dest src text.length = none := by
  have hloop := loop_urlcpy hn text (s := ⟨0, 0, dest, []⟩) hsrc (Nat.zero_add _)
  unfold strnUrlcpyAt
  rw [Int.toNat_natCast]
  cases hcopy : strnUrlcpy text with
  | none =>
    rw [hcopy, Copies] at hloop
    simp only [hloop]
  | some d =>
    rw [hcopy, Copies] at hloop
    obtain ⟨reads, hreads, hdone⟩ := hloop
    simp only [hdone]
    exact ⟨_, rfl, Nat.zero_add _, rfl, hreads⟩

/-! ## Encoded texts -/

/-- A hexadecimal digit of either case. -/
structure HexDigit where
  value : Fin 16
  upper : Bool
  deriving DecidableEq

def HexDigit.text (d : HexDigit) : UInt8 :=
  (ascii (if d.upper then "0123456789ABCDEF" else "0123456789abcdef")).getD d.value 0

inductive UrlToken where
  | raw (c : UInt8) (hc : c ≠ 37)
  | escape (hi lo : HexDigit)

/-- What may be left of an escape at the end of a text. -/
inductive UrlTail where
  | none
  | percent
  | percentByte (c : UInt8) (hc : c ≠ 37)

def UrlToken.text : UrlToken → Bytes
  | .raw c _ => [c]
  | .escape hi lo => [37, hi.text, lo.text]

def UrlToken.decoded : UrlToken → UInt8
  | .raw c _ => c
  | .escape hi lo => UInt8.ofNat (16 * hi.value + lo.value)

def UrlTail.text : UrlTail → Bytes
  | .none => []
  | .percent => [37]
  | .percentByte c _ => [37, c]

def urlText (tokens : List UrlToken) (tail : UrlTail) : Bytes :=
  tokens.flatMap UrlToken.text ++ tail.text

def urlDecoded (tokens : List UrlToken) (tail : UrlTail) : Bytes :=
  tokens.map UrlToken.decoded ++ tail.text

theorem HexDigit.hex2int_text (d : HexDigit) : hex2int d.text = some (d.value : Nat) := by
  obtain ⟨value, upper⟩ := d
  revert value upper
  decide

theorem UrlTail.strnUrlcpy_text (tail : UrlTail) : strnUrlcpy tail.text = some tail.text := by
  cases tail with
  | none => rfl
  | percent => rfl
  | percentByte c hc => rfl

theorem strnUrlcpy_urlText (tokens : List UrlToken) (tail : UrlTail) :
    strnUrlcpy (urlText tokens tail) = some (urlDecoded tokens tail) := by
  unfold urlText urlDecoded
  induction tokens with
  | nil => exact tail.strnUrlcpy_text
  | cons token tokens ih =>
    rw [List.flatMap_cons, List.map_cons, List.append_assoc]
    cases token with
    | raw c hc =>
      have hplain : strnUrlcpy (c :: (tokens.flatMap UrlToken.text ++ tail.text)) =
          (strnUrlcpy (tokens.flatMap UrlToken.text ++ tail.text)).map (c :: ·) :=
        strnUrlcpy_plain (Or.inl hc)
      rw [ih] at hplain
      exact hplain
    | escape hi lo =>
      simp only [UrlToken.text, UrlToken.decoded, List.cons_append, List.nil_append, strnUrlcpy,
        if_true, hi.hex2int_text, lo.hex2int_text, ih, Nat.mul_comm]

theorem UrlToken.text_pos (token : UrlToken) : 0 < token.text.length := by
  cases token <;> simp [UrlToken.text]

theorem urlDecoded_length_le (tokens : List UrlToken) (tail : UrlTail) :
    (urlDecoded tokens tail).length ≤ (urlText tokens tail).length := by
  unfold urlText urlDecoded
  induction tokens with
  | nil => exact Nat.le_refl _
  | cons token tokens ih =>
    have := token.text_pos
    simp only [List.map_cons, List.flatMap_cons, List.length_append, List.length_cons] at ih ⊢
    omega

/-- On an encoded text `strn_urlcpy` stores exactly the decoded bytes and returns their number, and
it never reads behind the text. -/
theorem strnUrlcpyAt_urlText (tokens : List UrlToken) (tail : UrlTail) {src : Nat → UInt8}
    (hsrc : Holds src 0 (urlText tokens tail)) (dest : Nat → UInt8) {n : Nat}
    (hn : (urlText tokens tail).length = n) (hint : n < 2147483647) :
    ∃ s, strnUrlcpyAt dest src n = some s ∧ s.j = (urlDecoded tokens tail).length ∧ s.j ≤ n ∧
      Holds s.dest 0 (urlDecoded tokens tail) ∧ (∀ k, s.j ≤ k → s.dest k = dest k) ∧
      ∀ r ∈ s.reads, r < n := by
  subst hn
  have heq := strnUrlcpyAt_eq hint hsrc dest
  rw [strnUrlcpy_urlText] at heq
  obtain ⟨s, hs, hj, hdest, hreads⟩ := heq
  refine ⟨s, hs, hj, by rw [hj]; exact urlDecoded_length_le tokens tail, ?_, ?_, hreads⟩
  · rw [hdest]
    exact holds_storeAll
  · intro k hk
    rw [hdest]
    apply storeAll_of_le
    omega

/-- Digits of both cases and a `%` that is left over. -/
theorem strnUrlcpyAt_urlText_sample : ∃ s,
    strnUrlcpyAt (fun _ => 0) (fun k => (ascii "a%4A%7e%").getD k 0) 8 = some s ∧ s.j = 4 ∧
      Holds s.dest 0 (ascii "aJ~%") := by
  let tokens : List UrlToken := [.raw 97 (by decide), .escape ⟨4, true⟩ ⟨10, true⟩,
    .escape ⟨7, false⟩ ⟨14, false⟩]
  have htext : urlText tokens .percent = ascii "a%4A%7e%" := by decide +kernel
  have hdecoded : urlDecoded tokens .percent = ascii "aJ~%" := by decide +kernel
  have hsrc := holds_getD (urlText tokens .percent)
  rw [htext] at hsrc
  have hn : (urlText tokens .percent).length = 8 := by rw [htext]; rfl
  obtain ⟨s, hs, hj, _, hdest, _⟩ := strnUrlcpyAt_urlText tokens .percent (by rwa [htext])
    (fun _ => 0) hn (by decide)
  rw [hdecoded] at hj hdest
  exact ⟨s, hs, hj, hdest⟩

/-! ## The longest text -/

section
variable {src : Nat → UInt8} {n : Int} {s : UrlCopy}

theorem urlcpyBody_raw (hc : src s.i ≠ 37) : urlcpyBody src n s = .next
    ⟨s.i + 1, s.j + 1, Function.update s.dest s.j (src s.i), s.reads ++ [s.i, s.i]⟩ :=
  if_neg fun h => hc h.1

/-- Whatever the length, bytes other than `%` are copied one by one. -/
theorem loop_urlcpy_raw {k : Nat} (hraw : ∀ i, i < s.i + k → src i ≠ 37) (hlt : (s.i + k : Int) ≤ n)
    (fuel : Nat) : ∃ s', s'.i = s.i + k ∧
      loop (urlcpyMore n) (urlcpyBody src n) (fuel + k) s =
        loop (urlcpyMore n) (urlcpyBody src n) fuel s' := by
  induction k generalizing s with
  | zero => exact ⟨s, rfl, rfl⟩
  | succ k ih =>
    have hmore : urlcpyMore n s = true := decide_eq_true (by omega)
    have hbody := urlcpyBody_raw (n := n) (hraw s.i (by omega))
    obtain ⟨s', hs', hloop⟩ := ih
      (s := ⟨s.i + 1, s.j + 1, Function.update s.dest s.j (src s.i), s.reads ++ [s.i, s.i]⟩)
      (fun i hi => hraw i (by simp only at hi; omega)) (by simp only; omega)
    refine ⟨s', by simp only at hs'; omega, ?_⟩
    rw [← Nat.add_assoc, loop_next hmore hbody]
    exact hloop

end

/-- In front of a final `%` the look-ahead of an `int` this large is negative. -/
theorem strnUrlcpyAt_overflow {m : Nat} (hm : m = 2147483646) {src : Nat → UInt8}
    (hraw : ∀ i, i < m → src i = 97) (hpercent : src m = 37) (hbehind : ∀ i, m < i → src i = 97)
    (dest : Nat → UInt8) :
    ∃ s, strnUrlcpyAt dest src (m + 1 : Nat) = some s ∧ m + 1 ∈ s.reads := by
  have hplain : ∀ i, i < 0 + m → src i ≠ 37 := by
    intro i hi
    rw [hraw i (by omega)]
    decide
  obtain ⟨s, hs, hloop⟩ := loop_urlcpy_raw (n := (m + 1 : Nat)) (s := ⟨0, 0, dest, []⟩) hplain
    (by simp only; omega) 2
  obtain rfl : m = s.i := by simpa using hs.symm
  have hahead : src s.i = 37 ∧ toInt32 ((s.i : Int) + 2) < (s.i + 1 : Nat) := by
    refine ⟨hpercent, ?_⟩
    unfold toInt32
    omega
  have hdigit : hex2int 97 = some 10 := by decide
  let s' : UrlCopy := ⟨s.i + 3, s.j + 1,
    Function.update s.dest s.j (UInt8.ofNat (10 * 16 + 10)), s.reads ++ [s.i, s.i + 1, s.i + 2]⟩
  have hbody : urlcpyBody src (s.i + 1 : Nat) s = .next s' := by
    rw [urlcpyBody, if_pos hahead, hbehind _ (by omega), hbehind _ (by omega), hdigit]
  have hmore : urlcpyMore (s.i + 1 : Nat) s = true := decide_eq_true (by omega)
  have hexit : urlcpyMore (s.i + 1 : Nat) s' = false :=
    decide_eq_false (by simp only [s']; omega)
  refine ⟨s', ?_, List.mem_append_right s.reads (List.mem_cons_of_mem _ List.mem_cons_self)⟩
  unfold strnUrlcpyAt
  rw [Int.toNat_natCast, show s.i + 1 + 1 = 2 + s.i by omega, hloop, loop_next hmore hbody,
    loop_exit hexit]

theorem urlText_replicate (m : Nat) (c : UInt8) (hc : c ≠ 37) (tail : UrlTail) :
    urlText (List.replicate m (.raw c hc)) tail = List.replicate m c ++ tail.text := by
  unfold urlText
  congr 1
  induction m with
  | zero => rfl
  | succ m ih =>
    rw [List.replicate_succ, List.flatMap_cons, ih]
    rfl

/-- A text of 2^31 - 1 bytes that ends in `%`: it is read beyond its end. -/
theorem strnUrlcpyAt_urlText_longest :
    let tokens := List.replicate 2147483646 (UrlToken.raw 97 (by decide))
    let src : Nat → UInt8 := fun k => if k = 2147483646 then 37 else 97
    (urlText tokens .percent).length = 2147483647 ∧ Holds src 0 (urlText tokens .percent) ∧
      ¬ ∃ s, strnUrlcpyAt (fun _ => 0) src 2147483647 = some s ∧
        s.j = (urlDecoded tokens .percent).length ∧ s.j ≤ 2147483647 ∧
        Holds s.dest 0 (urlDecoded tokens .percent) ∧ (∀ k, s.j ≤ k → s.dest k = 0) ∧
        ∀ r ∈ s.reads, r < 2147483647 := by
  intro tokens src
  obtain ⟨m, hm⟩ : ∃ m : Nat, m = 2147483646 := ⟨_, rfl⟩
  have htext : urlText tokens .percent = List.replicate m 97 ++ [37] := by
    rw [hm]
    exact urlText_replicate _ _ _ _
  have hsrc : ∀ i, i ≠ m → src i = 97 := fun i hi => if_neg (by omega)
  have hpercent : src m = 37 := if_pos hm
  refine ⟨?_, ?_, ?_⟩
  · rw [htext, List.length_append, List.length_replicate, List.length_singleton]
    omega
  · intro k c hk
    rw [htext] at hk
    rw [Nat.zero_add]
    rcases Nat.lt_or_ge k m with hlt | hge
    · rw [List.getElem?_append_left (by simpa using hlt), List.getElem?_replicate, if_pos hlt] at hk
      rw [hsrc k (by omega)]
      exact Option.some.inj hk
    · have hlen := (List.getElem?_eq_some_iff.mp hk).1
      rw [List.length_append, List.length_replicate, List.length_singleton] at hlen
      obtain rfl : k = m := by omega
      rw [List.getElem?_append_right (by simp), List.length_replicate, Nat.sub_self] at hk
      rw [hpercent]
      exact Option.some.inj hk
  · rintro ⟨s, hs, _, _, _, _, hreads⟩
    obtain ⟨s', hs', hread⟩ := strnUrlcpyAt_overflow hm (fun i hi => hsrc i (by omega)) hpercent
      (fun i hi => hsrc i (by omega)) (fun _ => 0)
    have hlen : ((m + 1 : Nat) : Int) = 2147483647 := by omega
    rw [hlen] at hs'
    obtain rfl := Option.some.inj (hs.symm.trans hs')
    have := hreads _ hread
    omega

end PyAgent
