import PyAgent.FrameParser
import PyAgent.HttpResponse
import PyAgent.HttpServerVerticle
import PyAgent.Streaming.Words

/-!
# What the consumer agents answer

Each consumer agent takes the second line of a result for the body of its HTTP response.
`act_done_callback` of ca.cc looks for the newlines around it, `_callback` of ca.py and
`writeHttpResponse` of HttpServerVerticle.java for the second word of the result.
-/

namespace PyAgent
set_option autoImplicit false

open Streaming

/-! ## ca.py -/

namespace Python

/-- What `str.split()` takes for whitespace. -/
def isSpace (c : UInt8) : Bool := c == 32 || (9 ≤ c && c ≤ 13)

def split (s : Bytes) : List Bytes := words isSpace s

structure ActResponse where
  id : Nat
  result : Bytes
  deriving DecidableEq

/-- What has been written to the body, and whether it has been sent. -/
structure RequestHandler where
  written : Bytes := []
  finished : Bool := false

namespace RequestHandler

def write (h : RequestHandler) (chunk : Bytes) : Option RequestHandler :=
  if h.finished then none else some { h with written := h.written ++ chunk }

def finish (h : RequestHandler) : Option RequestHandler :=
  if h.finished then none else some { h with finished := true }

end RequestHandler

/-- `_callback`; `none` when it raises. -/
def IndexHandler.callback (h : RequestHandler) (actResponse : ActResponse) :
    Option RequestHandler := do
  let word ← (split actResponse.result)[1]?
  let h ← h.write word
  h.finish

/-- A request that is waiting is answered with this body. -/
def Answers (result body : Bytes) : Prop :=
  ∀ id, IndexHandler.callback {} ⟨id, result⟩ = some ⟨body, true⟩

theorem answers_iff (result body : Bytes) :
    Answers result body ↔ (split result)[1]? = some body := by
  have hcallback : ∀ id, IndexHandler.callback {} ⟨id, result⟩ =
      (split result)[1]?.map fun word => ⟨word, true⟩ := by
    intro id
    cases hword : (split result)[1]? with
    | none => simp [IndexHandler.callback, hword]
    | some word =>
      simp [IndexHandler.callback, hword, RequestHandler.write, RequestHandler.finish]
  simp [Answers, hcallback]

end Python

/-! ## HttpServerVerticle.java -/

namespace Java

/-- The delimiters of a `StringTokenizer`. -/
def isDelim (c : Char) : Bool :=
  c == ' ' || c == '\t' || c == '\n' || c == '\r' || c == '\u000c'

structure StringTokenizer where
  rest : List Char

/-- `none` when there is no token left, which throws. -/
def StringTokenizer.nextToken (st : StringTokenizer) : Option (JString × StringTokenizer) :=
  (nextWord isDelim st.rest).map fun r => (⟨r.1⟩, ⟨r.2⟩)

/-- The responses are numbered; `bodies` holds what each of them has been ended with. -/
structure HttpServerVerticle where
  responseMap : Int → Option Nat := fun _ => none
  bodies : Nat → Option Bytes := fun _ => none

namespace HttpServerVerticle

/-- `response.end(chunk)`, which throws when the response has been ended before. -/
def endResponse (server : HttpServerVerticle) (response : Nat) (chunk : JString) :
    Option HttpServerVerticle :=
  match server.bodies response with
  | some _ => none
  | none =>
    some { server with bodies := Function.update server.bodies response (some chunk.utf8) }

/-- `none` when something is thrown, before anything has changed. -/
def writeHttpResponse (server : HttpServerVerticle) (actResponse : ActResponse JString) :
    Option HttpServerVerticle := do
  let result ← actResponse.result
  let st : StringTokenizer := ⟨result.chars⟩
  let (_, st) ← st.nextToken
  let response ← server.responseMap actResponse.apid
  let (token, _) ← st.nextToken
  let server ← server.endResponse response token
  some { server with
    responseMap := Function.update server.responseMap actResponse.apid none }

/-- What `createClient` gives to its `FrameParser`. -/
def handler : Handler HttpServerVerticle JString
  | server, .failed => (server, none)
  | server, .succeeded actResponse =>
    match server.writeHttpResponse actResponse with
    | some server' => (server', none)
    | none => (server, some .other)

end HttpServerVerticle

/-- A response that is waiting is ended with this body, and no longer waits. -/
def Answers (newString : Bytes → JString) (result body : Bytes) : Prop :=
  ∀ (server : HttpServerVerticle) (apid : Int) (response : Nat),
    server.responseMap apid = some response → server.bodies response = none →
    server.writeHttpResponse ⟨apid, some (newString result)⟩ =
      some ⟨Function.update server.responseMap apid none,
        Function.update server.bodies response (some body)⟩

theorem writeHttpResponse_waiting {server : HttpServerVerticle} {apid : Int} {response : Nat}
    (hwaits : server.responseMap apid = some response) (hopen : server.bodies response = none)
    (s : JString) : server.writeHttpResponse ⟨apid, some s⟩ =
      (words isDelim s.chars)[1]?.map fun token =>
        ⟨Function.update server.responseMap apid none,
          Function.update server.bodies response (some (JString.utf8 ⟨token⟩))⟩ := by
  rw [words_eq]
  cases hfirst : nextWord isDelim s.chars with
  | none => simp [HttpServerVerticle.writeHttpResponse, StringTokenizer.nextToken, hfirst]
  | some first =>
    rw [Option.elim_some, List.getElem?_cons_succ, words_eq]
    cases hsecond : nextWord isDelim first.2 with
    | none =>
      simp [HttpServerVerticle.writeHttpResponse, StringTokenizer.nextToken, hfirst, hsecond]
    | some second =>
      simp [HttpServerVerticle.writeHttpResponse, StringTokenizer.nextToken, hfirst, hsecond,
        hwaits, HttpServerVerticle.endResponse, hopen]

theorem answers_iff (newString : Bytes → JString) (result body : Bytes) :
    Answers newString result body ↔
      ∃ token, (words isDelim (newString result).chars)[1]? = some token ∧
        JString.utf8 ⟨token⟩ = body := by
  constructor
  · intro h
    have hone := h { responseMap := fun _ => some 0 } 0 0 rfl rfl
    rw [writeHttpResponse_waiting rfl rfl] at hone
    obtain ⟨token, htoken, heq⟩ := Option.map_eq_some_iff.mp hone
    refine ⟨token, htoken, ?_⟩
    have hbody := congrFun (congrArg HttpServerVerticle.bodies heq) 0
    simpa using hbody
  · rintro ⟨token, htoken, rfl⟩ server apid response hwaits hopen
    rw [writeHttpResponse_waiting hwaits hopen, htoken]
    rfl

/-- Nothing that the handler throws is caught. -/
theorem notify_handler (server : HttpServerVerticle) (actResponse : ActResponse JString) :
    FrameParser.notify HttpServerVerticle.handler server actResponse =
      server.writeHttpResponse actResponse := by
  cases hwrites : server.writeHttpResponse actResponse with
  | none => simp [FrameParser.notify, HttpServerVerticle.handler, hwrites]
  | some server' => simp [FrameParser.notify, HttpServerVerticle.handler, hwrites]

/-- However the frames of a connection are cut into buffers, the responses are written one after
the other. -/
theorem handleAll_responses {newString : Bytes → JString} {fs : List ActFrame}
    (hfs : ∀ f ∈ fs, f.Sized) {buffers : List Bytes}
    (hstarts : buffers.flatten <+: (fs.map ActFrame.encode).flatten)
    (hlen : buffers.flatten.length < 2147483648) {server server' : HttpServerVerticle}
    (hwrites : ((Decoder.complete ActFrame.encode fs buffers.flatten.length).map
      (response newString)).foldlM HttpServerVerticle.writeHttpResponse server = some server') :
    ∃ p, FrameParser.handleAll newString HttpServerVerticle.handler buffers {} server =
      some (p, server') := by
  apply handleAll_notified hfs hstarts hlen
  have hnotify : FrameParser.notify HttpServerVerticle.handler =
      HttpServerVerticle.writeHttpResponse := by
    funext server actResponse
    exact notify_handler server actResponse
  rw [hnotify]
  exact hwrites

/-- A frame, the response that waits for it, and the body it is to be ended with. -/
structure Waiting where
  frame : ActFrame
  response : Nat
  body : Bytes

/-- One response after the other is ended, and the others are left alone. -/
theorem responses_ended {newString : Bytes → JString} {ws : List Waiting}
    (hanswers : ∀ w ∈ ws, Answers newString w.frame.payload w.body)
    (hids : (ws.map fun w => w.frame.id).Nodup) (hresponses : (ws.map Waiting.response).Nodup)
    {server : HttpServerVerticle}
    (hwaits : ∀ w ∈ ws, server.responseMap w.frame.id = some w.response ∧
      server.bodies w.response = none) :
    ∃ server', (ws.map fun w => response newString w.frame).foldlM
        HttpServerVerticle.writeHttpResponse server = some server' ∧
      (∀ w ∈ ws, server'.bodies w.response = some w.body) ∧
      ∀ r, r ∉ ws.map Waiting.response → server'.bodies r = server.bodies r := by
  induction ws generalizing server with
  | nil => exact ⟨server, rfl, by simp, fun _ _ => rfl⟩
  | cons w ws ih =>
    obtain ⟨hanswer, hanswers⟩ := List.forall_mem_cons.mp hanswers
    obtain ⟨⟨hwaiting, hopen⟩, hwaits⟩ := List.forall_mem_cons.mp hwaits
    rw [List.map_cons, List.nodup_cons] at hids hresponses
    let server₁ : HttpServerVerticle := ⟨Function.update server.responseMap w.frame.id none,
      Function.update server.bodies w.response (some w.body)⟩
    have hends := hanswer server w.frame.id w.response hwaiting hopen
    have hnext : ∀ w' ∈ ws, server₁.responseMap w'.frame.id = some w'.response ∧
        server₁.bodies w'.response = none := by
      intro w' hw'
      have hid : w'.frame.id ≠ w.frame.id := fun h =>
        hids.1 (h ▸ List.mem_map_of_mem (f := fun w => w.frame.id) hw')
      have hresponse : w'.response ≠ w.response := fun h =>
        hresponses.1 (h ▸ List.mem_map_of_mem hw')
      simp only [server₁, Function.update_of_ne hid, Function.update_of_ne hresponse]
      exact hwaits w' hw'
    obtain ⟨server', hrun, hended, hothers⟩ := ih hanswers hids.2 hresponses.2 hnext
    refine ⟨server', ?_, ?_, ?_⟩
    · rw [List.map_cons, List.foldlM_cons, response, hends]
      exact hrun
    · refine List.forall_mem_cons.mpr ⟨?_, hended⟩
      rw [hothers _ hresponses.1]
      exact Function.update_self _ _ _
    · intro r hr
      rw [List.map_cons, List.mem_cons, not_or] at hr
      rw [hothers r hr.2]
      exact Function.update_of_ne hr.1 _ _

/-- However the frames of a connection are cut into buffers, every response that waits for one of
them is ended with its body. -/
theorem connection_answered {newString : Bytes → JString} {ws : List Waiting}
    (hsized : ∀ w ∈ ws, w.frame.Sized)
    (hanswers : ∀ w ∈ ws, Answers newString w.frame.payload w.body)
    (hids : (ws.map fun w => w.frame.id).Nodup) (hresponses : (ws.map Waiting.response).Nodup)
    {buffers : List Bytes}
    (hframes : buffers.flatten = (ws.map fun w => w.frame.encode).flatten)
    (hlen : buffers.flatten.length < 2147483648) {server : HttpServerVerticle}
    (hwaits : ∀ w ∈ ws, server.responseMap w.frame.id = some w.response ∧
      server.bodies w.response = none) :
    ∃ p server', FrameParser.handleAll newString HttpServerVerticle.handler buffers {} server =
      some (p, server') ∧ ∀ w ∈ ws, server'.bodies w.response = some w.body := by
  obtain ⟨server', hrun, hended, _⟩ := responses_ended hanswers hids hresponses hwaits
  have hfs : ∀ f ∈ ws.map Waiting.frame, f.Sized := List.forall_mem_map.mpr hsized
  have hencoded : buffers.flatten = ((ws.map Waiting.frame).map ActFrame.encode).flatten := by
    rw [hframes, List.map_map]
    rfl
  have hall : Decoder.complete ActFrame.encode (ws.map Waiting.frame) buffers.flatten.length =
      ws.map Waiting.frame := Decoder.complete_all _ (by rw [hencoded])
  have hwrites : ((Decoder.complete ActFrame.encode (ws.map Waiting.frame)
      buffers.flatten.length).map (response newString)).foldlM
        HttpServerVerticle.writeHttpResponse server = some server' := by
    rw [hall, List.map_map]
    exact hrun
  obtain ⟨p, hp⟩ := handleAll_responses hfs (hencoded ▸ List.prefix_refl _) hlen hwrites
  exact ⟨p, server', hp, hended⟩

/-! ## Texts and their bytes -/

/-- The charset of `new String` is UTF-8, as it is where `LANG` is `C.UTF-8`. -/
structure DecodesUtf8 (newString : Bytes → JString) : Prop where
  nil : newString [] = ⟨[]⟩
  char : ∀ c bs, newString (String.utf8EncodeChar c ++ bs) = ⟨c :: (newString bs).chars⟩

namespace DecodesUtf8
variable {newString : Bytes → JString} (h : DecodesUtf8 newString)
include h

theorem append (s : JString) (bs : Bytes) :
    newString (s.utf8 ++ bs) = ⟨s.chars ++ (newString bs).chars⟩ := by
  obtain ⟨cs⟩ := s
  induction cs with
  | nil => rfl
  | cons c cs ih =>
    have ih : newString (cs.flatMap String.utf8EncodeChar ++ bs) =
        ⟨cs ++ (newString bs).chars⟩ := ih
    rw [JString.utf8, List.flatMap_cons, List.append_assoc, h.char, ih]
    rfl

theorem utf8 (s : JString) : newString s.utf8 = s := by
  have happend := h.append s []
  rw [List.append_nil, h.nil] at happend
  simpa using happend

theorem newline (bs : Bytes) : newString (10 :: bs) = ⟨'\n' :: (newString bs).chars⟩ :=
  h.char '\n' bs

end DecodesUtf8

/-- The characters behind the next `skip` bytes; a byte that starts no character is replaced. -/
def decodeFrom : Nat → Bytes → List Char
  | _, [] => []
  | skip + 1, _ :: bs => decodeFrom skip bs
  | 0, b :: bs =>
    match (b :: bs).toByteArray.utf8DecodeChar? 0 with
    | some c => c :: decodeFrom (c.utf8Size - 1) bs
    | none => '\ufffd' :: decodeFrom 0 bs

def decodeUtf8 (bs : Bytes) : JString := ⟨decodeFrom 0 bs⟩

theorem decodeFrom_skip (bs rest : Bytes) :
    decodeFrom bs.length (bs ++ rest) = decodeFrom 0 rest := by
  induction bs with
  | nil => rfl
  | cons b bs ih =>
    rw [List.length_cons, List.cons_append, decodeFrom, ih]

theorem decodeUtf8_decodes : DecodesUtf8 decodeUtf8 where
  nil := rfl
  char c bs := by
    have hlength := String.length_utf8EncodeChar c
    have hdecode := ByteArray.utf8DecodeChar?_utf8EncodeChar_append (b := bs.toByteArray) (c := c)
    rw [← List.toByteArray_append] at hdecode
    cases henc : String.utf8EncodeChar c with
    | nil => exact absurd henc String.utf8EncodeChar_ne_nil
    | cons b tail =>
      rw [henc] at hlength hdecode
      have htail : c.utf8Size - 1 = tail.length := by
        rw [← hlength, List.length_cons, Nat.add_sub_cancel]
      rw [decodeUtf8, List.cons_append, decodeFrom, ← List.cons_append, hdecode]
      simp only [htail, decodeFrom_skip]
      rfl

/-- A character is a byte of its own, or every byte of it is from 128 on. -/
theorem mem_utf8EncodeChar {c : Char} {b : UInt8} (hb : b ∈ String.utf8EncodeChar c) :
    b.toNat = c.toNat ∨ 128 ≤ b.toNat := by
  by_cases hc : c.val ≤ 127
  · rw [JString.utf8EncodeChar_ascii hc] at hb
    rw [List.mem_singleton.mp hb]
    exact Or.inl (JString.toUInt8_toNat hc)
  · have hc' : ¬ c.val.toNat ≤ 127 := hc
    have hbyte : ∃ k, b = UInt8.ofNat k ∧ 128 ≤ k ∧ k < 256 := by
      simp only [String.utf8EncodeChar, if_neg hc'] at hb
      split at hb
      · simp only [List.mem_cons, List.not_mem_nil, or_false] at hb
        rcases hb with rfl | rfl <;> exact ⟨_, rfl, by omega, by omega⟩
      · split at hb
        · simp only [List.mem_cons, List.not_mem_nil, or_false] at hb
          rcases hb with rfl | rfl | rfl <;> exact ⟨_, rfl, by omega, by omega⟩
        · simp only [List.mem_cons, List.not_mem_nil, or_false] at hb
          rcases hb with rfl | rfl | rfl | rfl <;> exact ⟨_, rfl, by omega, by omega⟩
    obtain ⟨k, rfl, h128, h256⟩ := hbyte
    rw [UInt8.toNat_ofNat', Nat.mod_eq_of_lt (show k < 2 ^ 8 by omega)]
    exact Or.inr h128

theorem space_mem_utf8_iff (s : JString) : 32 ∈ s.utf8 ↔ ' ' ∈ s.chars := by
  constructor
  · intro h
    obtain ⟨c, hc, hb⟩ := List.mem_flatMap.mp h
    have hthirtyTwo : (32 : UInt8).toNat = 32 := rfl
    have hcode : c.toNat = 32 := by
      have := mem_utf8EncodeChar hb
      omega
    rw [← show c = ' ' from Char.toNat_inj.mp hcode]
    exact hc
  · intro h
    exact List.mem_flatMap.mpr ⟨' ', h, List.mem_singleton.mpr rfl⟩

theorem isDelim_iff (c : Char) : isDelim c = true ↔
    c.toNat = 32 ∨ c.toNat = 9 ∨ c.toNat = 10 ∨ c.toNat = 13 ∨ c.toNat = 12 := by
  simp [isDelim, ← Char.toNat_inj, or_assoc]

theorem isSpace_iff (b : UInt8) : Python.isSpace b = true ↔
    b.toNat = 32 ∨ 9 ≤ b.toNat ∧ b.toNat ≤ 13 := by
  simp [Python.isSpace, UInt8.le_iff_toNat_le, ← UInt8.toNat_inj]

/-- Whitespace and delimiters differ in the vertical tab only. -/
theorem keepsSep {c : Char} (hc : c ≠ '\u000b') :
    KeepsSep isDelim Python.isSpace String.utf8EncodeChar c := by
  have hcode : c.toNat ≠ 11 := fun h => hc (Char.toNat_inj.mp h)
  constructor
  · intro hsep
    have hsep := (isDelim_iff c).mp hsep
    have hascii : c.val ≤ 127 := show c.toNat ≤ 127 by omega
    refine ⟨_, JString.utf8EncodeChar_ascii hascii, (isSpace_iff _).mpr ?_⟩
    rw [JString.toUInt8_toNat hascii]
    omega
  · intro hsep b hb
    have hother := mt (isDelim_iff c).mpr (Bool.eq_false_iff.mp hsep)
    apply Bool.eq_false_iff.mpr
    intro hspace
    have hspace := (isSpace_iff b).mp hspace
    have hcodes := mem_utf8EncodeChar hb
    omega

/-- The words of a text for both agents. -/
theorem split_utf8 {s : JString} (hs : '\u000b' ∉ s.chars) :
    Python.split s.utf8 = (words isDelim s.chars).map fun w => JString.utf8 ⟨w⟩ := by
  apply words_flatMap
  · exact fun c => String.utf8EncodeChar_ne_nil
  · intro c hc
    apply keepsSep
    rintro rfl
    exact hs hc

/-- On a text without vertical tabs the Python and the Java agent answer alike. -/
theorem python_answers_iff_java {newString : Bytes → JString} (hcharset : DecodesUtf8 newString)
    {s : JString} (hs : '\u000b' ∉ s.chars) (body : Bytes) :
    Python.Answers s.utf8 body ↔ Answers newString s.utf8 body := by
  rw [Python.answers_iff, answers_iff, hcharset.utf8, split_utf8 hs, List.getElem?_map,
    Option.map_eq_some_iff]

/-! ## The second line -/

def Decimal (t : JString) : Prop := t.chars ≠ [] ∧ ∀ c ∈ t.chars, c.isDigit = true

/-- Not empty, and free of control characters. -/
def Printable (v : JString) : Prop :=
  v.chars ≠ [] ∧ ∀ c ∈ v.chars, 32 ≤ c.toNat ∧ ¬ (127 ≤ c.toNat ∧ c.toNat ≤ 159)

/-- A tag, a value and anything behind them. -/
def dubboResult (t v : JString) (rest : Bytes) : Bytes :=
  t.utf8 ++ 10 :: (v.utf8 ++ 10 :: rest)

theorem Decimal.printable {t : JString} (ht : Decimal t) : Printable t ∧ ' ' ∉ t.chars := by
  have hdigit : ∀ c ∈ t.chars, 48 ≤ c.toNat ∧ c.toNat ≤ 57 := by
    intro c hc
    simpa [Char.isDigit, UInt32.le_iff_toNat_le] using ht.2 c hc
  refine ⟨⟨ht.1, ?_⟩, ?_⟩
  · intro c hc
    have := hdigit c hc
    omega
  · intro hspace
    have := hdigit ' ' hspace
    revert this
    decide

namespace Printable
variable {v : JString} (hv : Printable v)
include hv

theorem byte_ge {b : UInt8} (hb : b ∈ v.utf8) : 32 ≤ b.toNat := by
  obtain ⟨c, hc, hbc⟩ := List.mem_flatMap.mp hb
  have hprintable := hv.2 c hc
  have hcodes := mem_utf8EncodeChar hbc
  omega

theorem byte_ne {b : UInt8} (hb : b.toNat < 32) : b ∉ v.utf8 := by
  intro h
  have := hv.byte_ge h
  omega

theorem utf8_ne_nil : v.utf8 ≠ [] := by
  obtain ⟨c, cs, hcs⟩ := List.exists_cons_of_ne_nil hv.1
  rw [JString.utf8, hcs, List.flatMap_cons]
  simp

/-- A value without spaces is one word. -/
theorem words_eq (hspace : ' ' ∉ v.chars) : words isDelim v.chars = [v.chars] := by
  apply words_of_no_sep
  · intro c hc
    apply Bool.eq_false_iff.mpr
    intro hdelim
    have hcode := (isDelim_iff c).mp hdelim
    have hprintable := hv.2 c hc
    have h32 : c = ' ' := Char.toNat_inj.mp (show c.toNat = 32 by omega)
    rw [h32] at hc
    exact hspace hc
  · exact hv.1

theorem split_eq : Python.split v.utf8 = (words isDelim v.chars).map fun w => JString.utf8 ⟨w⟩ := by
  apply split_utf8
  intro h
  have := (hv.2 _ h).1
  revert this
  decide

end Printable

section
variable {t v : JString} (ht : Decimal t) (hv : Printable v) (rest : Bytes)
include ht

theorem split_dubboResult : Python.split (dubboResult t v rest) =
    t.utf8 :: (Python.split v.utf8 ++ Python.split rest) := by
  have htag : Python.split t.utf8 = [t.utf8] := by
    rw [ht.printable.1.split_eq, ht.printable.1.words_eq ht.printable.2]
    rfl
  unfold Python.split dubboResult at *
  rw [words_append_cons rfl, words_append_cons rfl, htag]
  rfl

theorem words_dubboResult {newString : Bytes → JString} (hcharset : DecodesUtf8 newString) :
    words isDelim (newString (dubboResult t v rest)).chars =
      t.chars :: (words isDelim v.chars ++ words isDelim (newString rest).chars) := by
  rw [dubboResult, hcharset.append, hcharset.newline, hcharset.append, hcharset.newline,
    words_append_cons rfl, words_append_cons rfl, ht.printable.1.words_eq ht.printable.2]
  rfl

/-- Of a value that is not blank, `writeHttpResponse` sends the first word. -/
theorem java_answers_word {newString : Bytes → JString} (hcharset : DecodesUtf8 newString)
    {w : List Char} {ws : List (List Char)} (hwords : words isDelim v.chars = w :: ws) :
    Answers newString (dubboResult t v rest) (JString.utf8 ⟨w⟩) := by
  apply (answers_iff _ _ _).mpr
  refine ⟨w, ?_, rfl⟩
  rw [words_dubboResult ht rest hcharset, hwords]
  rfl

include hv

theorem python_answers_word {w : List Char} {ws : List (List Char)}
    (hwords : words isDelim v.chars = w :: ws) :
    Python.Answers (dubboResult t v rest) (JString.utf8 ⟨w⟩) := by
  apply (Python.answers_iff _ _).mpr
  rw [split_dubboResult ht, hv.split_eq, hwords]
  rfl

theorem python_answers_value_iff :
    Python.Answers (dubboResult t v rest) v.utf8 ↔ ' ' ∉ v.chars := by
  constructor
  · intro h hspace
    rw [Python.answers_iff, split_dubboResult ht, List.getElem?_cons_succ] at h
    have hmem : v.utf8 ∈ Python.split (v.utf8 ++ 10 :: rest) := by
      rw [Python.split, words_append_cons rfl]
      exact List.mem_of_getElem? h
    have hsep := no_sep_of_mem_words hmem 32 ((space_mem_utf8_iff v).mpr hspace)
    exact Bool.noConfusion hsep
  · intro h
    exact python_answers_word ht hv rest (hv.words_eq h)

theorem java_answers_value_iff {newString : Bytes → JString} (hcharset : DecodesUtf8 newString) :
    Answers newString (dubboResult t v rest) v.utf8 ↔ ' ' ∉ v.chars := by
  constructor
  · intro h hspace
    rw [answers_iff, words_dubboResult ht rest hcharset, List.getElem?_cons_succ] at h
    obtain ⟨token, htoken, hutf8⟩ := h
    have hmem : token ∈ words isDelim (v.chars ++ '\n' :: (newString rest).chars) := by
      rw [words_append_cons rfl]
      exact List.mem_of_getElem? htoken
    have hbyte := (space_mem_utf8_iff v).mpr hspace
    rw [← hutf8] at hbyte
    have hsep := no_sep_of_mem_words hmem ' ' ((space_mem_utf8_iff ⟨token⟩).mp hbyte)
    exact Bool.noConfusion hsep
  · intro h
    exact java_answers_word ht rest hcharset (hv.words_eq h)

end

end Java

/-! ## ca.cc -/

/-- A result, as it has been copied into an `act_response`, is answered with this body. -/
def Answers (result body : Bytes) : Prop :=
  ∀ id, ∃ bs, actDoneCallback ⟨id, result.length, nulPadded result⟩ = some bs ∧ HttpBody bs body

/-- The callback of ca.cc sends the whole line, if it is not too long. -/
theorem answers_line_iff {first second : Bytes} (hfirst : 10 ∉ first) (hfirst0 : 0 ∉ first)
    (hsecond : 10 ∉ second) (hsecond0 : 0 ∉ second) (hne : second ≠ []) (rest : Bytes) :
    Answers (first ++ 10 :: (second ++ 10 :: rest)) second ↔
      second.length + 257 < 2147483648 := by
  have hnewline : (10 : UInt8) ≠ 0 := by decide
  have hcopied : nulPadded (first ++ 10 :: (second ++ 10 :: rest)) =
      first ++ 10 :: (second ++ 10 :: nulPadded rest) := by
    rw [nulPadded_append hfirst0, nulPadded_cons hnewline, nulPadded_append hsecond0,
      nulPadded_cons hnewline]
  have hbytes : ∀ id, actDoneCallback ⟨id, (first ++ 10 :: (second ++ 10 :: rest)).length,
      nulPadded (first ++ 10 :: (second ++ 10 :: rest))⟩ =
      if second.length + 257 < 2147483648 then
        some (httpHeader ++ formatInt second.length ++ ascii "\r\n\r\n" ++ second) else none := by
    intro id
    rw [actDoneCallback_two_lines ?_ hcopied hfirst hsecond hne, formatStr_of_no_nul hsecond0]
    exact congrArg Nat.cast (nulPadded_length _).symm
  simp only [Answers, hbytes]
  by_cases hroom : second.length + 257 < 2147483648
  · rw [if_pos hroom]
    apply iff_of_true ?_ hroom
    exact fun _ => ⟨_, rfl, (httpBody_formatInt_iff _ _ _).mpr ⟨rfl, rfl⟩⟩
  · rw [if_neg hroom]
    apply iff_of_false ?_ hroom
    intro h
    obtain ⟨bs, hbs, _⟩ := h 0
    cases hbs

/-! ## One answer from all of them -/

open Java (JString DecodesUtf8 Decimal Printable dubboResult)

/-- The callback of ca.cc sends the whole value. -/
theorem answers_value_iff {t v : JString} (ht : Decimal t) (hv : Printable v) (rest : Bytes) :
    Answers (dubboResult t v rest) v.utf8 ↔ v.utf8.length + 257 < 2147483648 := by
  have htag := ht.printable.1
  have hnewline : (10 : UInt8).toNat < 32 := by decide
  have hnul : (0 : UInt8).toNat < 32 := by decide
  exact answers_line_iff (htag.byte_ne hnewline) (htag.byte_ne hnul) (hv.byte_ne hnewline)
    (hv.byte_ne hnul) hv.utf8_ne_nil rest

/-- All consumer agents send the value, and nothing else, when it has no spaces in it and is not too
long for the callback of ca.cc. -/
theorem same_answer_iff {newString : Bytes → JString} (hcharset : DecodesUtf8 newString)
    {t v : JString} (ht : Decimal t) (hv : Printable v) (rest : Bytes) :
    (Answers (dubboResult t v rest) v.utf8 ∧ Python.Answers (dubboResult t v rest) v.utf8 ∧
      Java.Answers newString (dubboResult t v rest) v.utf8) ↔
      ' ' ∉ v.chars ∧ v.utf8.length + 257 < 2147483648 := by
  rw [answers_value_iff ht hv, Java.python_answers_value_iff ht hv,
    Java.java_answers_value_iff ht hv rest hcharset]
  constructor
  · exact fun h => ⟨h.2.1, h.1⟩
  · exact fun h => ⟨h.2, h.1, h.1⟩

/-- The number that the provider answers a hash with. -/
theorem same_answer_iff_number :
    let v : JString := ⟨['1', '2', '3', '4', '5']⟩
    Answers (dubboResult ⟨['1']⟩ v []) v.utf8 ∧ Python.Answers (dubboResult ⟨['1']⟩ v []) v.utf8 ∧
      Java.Answers Java.decodeUtf8 (dubboResult ⟨['1']⟩ v []) v.utf8 := by
  intro v
  have htag : Decimal ⟨['1']⟩ := by simp [Decimal]
  have hvalue : Printable v := by simp [Printable, v]
  apply (same_answer_iff Java.decodeUtf8_decodes htag hvalue []).mpr
  exact ⟨by simp [v], by decide⟩

/-- A string with a space in it: ca.cc sends the line, the others what stands before the space. -/
theorem spaced_value_cut :
    let t : JString := ⟨['1']⟩
    let v : JString := ⟨['\u0022', 'a', ' ', 'b', '\u0022']⟩
    let cut : JString := ⟨['\u0022', 'a']⟩
    Decimal t ∧ Printable v ∧ DecodesUtf8 Java.decodeUtf8 ∧ Answers (dubboResult t v []) v.utf8 ∧
      Python.Answers (dubboResult t v []) cut.utf8 ∧
      Java.Answers Java.decodeUtf8 (dubboResult t v []) cut.utf8 ∧
      ¬ (Answers (dubboResult t v []) v.utf8 ∧ Python.Answers (dubboResult t v []) v.utf8 ∧
        Java.Answers Java.decodeUtf8 (dubboResult t v []) v.utf8) := by
  intro t v cut
  have ht : Decimal t := by simp [Decimal, t]
  have hv : Printable v := by simp [Printable, v]
  have hwords : words Java.isDelim v.chars = [cut.chars, ['b', '\u0022']] := rfl
  refine ⟨ht, hv, Java.decodeUtf8_decodes, ?_, Java.python_answers_word ht hv [] hwords,
    Java.java_answers_word ht [] Java.decodeUtf8_decodes hwords, ?_⟩
  · exact (answers_value_iff ht hv []).mpr (by decide)
  · intro h
    have hspace := (Java.python_answers_value_iff ht hv []).mp h.2.1
    exact hspace (by simp [v])

end PyAgent
