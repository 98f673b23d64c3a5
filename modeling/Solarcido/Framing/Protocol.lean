import Solarcido.Lib.ChunkedDecoder
import Solarcido.Js.LowerCase
import Solarcido.Js.Number
import Solarcido.Js.Utf8

namespace Solarcido.Framing

open Search Text Number Utf8 ChunkedDecoder

/-- The longest string the engine can hold. -/
def maxStringLength : Nat := Nat.pow 2 29 - 24

/-- `JSON.stringify` and `JSON.parse` on the JSON values `V`: text made from a value has no
lone surrogate, fits a string, and is read back as that value. -/
structure JsonCodec (V : Type) where
  stringify : V → JsString
  parse : JsString → Except JsString V
  parse_stringify : ∀ v, parse (stringify v) = .ok v
  stringify_wellFormed : ∀ v, WellFormed (stringify v)
  stringify_length : ∀ v, (stringify v).length ≤ maxStringLength

structure FramingError where
  message : JsString
  deriving DecidableEq

def crlf : JsString := js "\r\n"

def separatorBytes : Bytes := bufferFrom (js "\r\n\r\n")

/-- One round of the loop over the header lines. -/
def headerLine (contentLength : Option Nat) (line : JsString) :
    Except FramingError (Option Nat) :=
  match firstIndexOf (js ":") line with
  | none => .ok contentLength
  | some colon =>
    if toLowerCase (trim (line.take colon)) = js "content-length" then
      match parseInt (trim (line.drop (colon + 1))) with
      | .int (.ofNat n) => .ok (some n)
      | _ => .error ⟨js "invalid Content-Length header: " ++ line⟩
    else .ok contentLength

def headerLines (headerText : JsString) : Except FramingError (Option Nat) :=
  (split headerText crlf).foldlM headerLine none

def contentLengthOf (headerText : JsString) : Except FramingError Nat :=
  match headerLines headerText with
  | .error e => .error e
  | .ok none => .error ⟨js "missing Content-Length header"⟩
  | .ok (some n) => .ok n

def subarray (buffer : Bytes) (first last : Nat) : Bytes := (buffer.take last).drop first

section codec

variable {V : Type} (json : JsonCodec V)

def parseBody (bodyText : JsString) : Except FramingError V :=
  match json.parse bodyText with
  | .error message => .error ⟨js "invalid JSON body: " ++ message⟩
  | .ok v => .ok v

/-- The message at the front of a buffer and the bytes it takes; `none` while the
frame is incomplete. -/
def decodeContentLengthFrame : Next UInt8 V FramingError := fun buffer =>
  match firstIndexOf separatorBytes buffer with
  | none => .ok none
  | some separator =>
    match contentLengthOf (bufferToString (subarray buffer 0 separator)) with
    | .error e => .error e
    | .ok contentLength =>
      let bodyStart := separator + 4
      let bodyEnd := bodyStart + contentLength
      if buffer.length < bodyEnd then .ok none
      else
        match parseBody json (bufferToString (subarray buffer bodyStart bodyEnd)) with
        | .error e => .error e
        | .ok message => .ok (some (message, bodyEnd))

def encodeContentLengthFrame (message : V) : Bytes :=
  let body := bufferFrom (json.stringify message)
  let header := bufferFrom (js "Content-Length: " ++ decimal body.length ++ js "\r\n\r\n")
  header ++ body

def headerAt (buffer : Bytes) (separator : Nat) : JsString :=
  bufferToString (subarray buffer 0 separator)

def bodyAt (buffer : Bytes) (separator contentLength : Nat) : JsString :=
  bufferToString (subarray buffer (separator + 4) (separator + 4 + contentLength))

/-- When a frame is decoded. -/
theorem decode_frame_iff (buffer : Bytes) (message : V) (n : Nat) :
    decodeContentLengthFrame json buffer = .ok (some (message, n)) ↔
      ∃ separator contentLength, firstIndexOf separatorBytes buffer = some separator ∧
        contentLengthOf (headerAt buffer separator) = .ok contentLength ∧
        n = separator + 4 + contentLength ∧ n ≤ buffer.length ∧
        parseBody json (bodyAt buffer separator contentLength) = .ok message := by
  constructor
  · intro h
    unfold decodeContentLengthFrame at h
    split at h
    · simp at h
    · next separator hsep =>
      split at h
      · simp at h
      · next contentLength hlen =>
        dsimp only at h
        split at h
        · simp at h
        · next hfit =>
          split at h
          · simp at h
          · next message' hbody =>
            simp only [Except.ok.injEq, Option.some.injEq, Prod.mk.injEq] at h
            obtain ⟨rfl, rfl⟩ := h
            exact ⟨separator, contentLength, hsep, hlen, rfl, by omega, hbody⟩
  · rintro ⟨separator, contentLength, hsep, hlen, rfl, hfit, hbody⟩
    unfold headerAt at hlen
    unfold bodyAt at hbody
    simp only [decodeContentLengthFrame, hsep, hlen, if_neg (Nat.not_lt.mpr hfit), hbody]

/-- When a frame is refused: on its header block, or on its body. -/
theorem decode_error_iff (buffer : Bytes) (e : FramingError) :
    decodeContentLengthFrame json buffer = .error e ↔
      ∃ separator, firstIndexOf separatorBytes buffer = some separator ∧
        (contentLengthOf (headerAt buffer separator) = .error e ∨
          ∃ contentLength, contentLengthOf (headerAt buffer separator) = .ok contentLength ∧
            separator + 4 + contentLength ≤ buffer.length ∧
            parseBody json (bodyAt buffer separator contentLength) = .error e) := by
  constructor
  · intro h
    unfold decodeContentLengthFrame at h
    split at h
    · simp at h
    · next separator hsep =>
      split at h
      · next e' hlen =>
        have he : e' = e := by simpa using h
        subst he
        exact ⟨separator, hsep, Or.inl hlen⟩
      · next contentLength hlen =>
        dsimp only at h
        split at h
        · simp at h
        · next hfit =>
          split at h
          · next e' hbody =>
            have he : e' = e := by simpa using h
            subst he
            exact ⟨separator, hsep, Or.inr ⟨contentLength, hlen, by omega, hbody⟩⟩
          · simp at h
  · rintro ⟨separator, hsep, hlen | ⟨contentLength, hlen, hfit, hbody⟩⟩
    · unfold headerAt at hlen
      simp only [decodeContentLengthFrame, hsep, hlen]
    · unfold headerAt at hlen
      unfold bodyAt at hbody
      simp only [decodeContentLengthFrame, hsep, hlen, if_neg (Nat.not_lt.mpr hfit), hbody]

theorem separatorBytes_length : separatorBytes.length = 4 := by decide

theorem separator_fits {buffer : Bytes} {separator : Nat}
    (h : firstIndexOf separatorBytes buffer = some separator) :
    separator + 4 ≤ buffer.length := by
  have hfit := firstIndexOf_fits _ _ _ h
  rwa [separatorBytes_length] at hfit

theorem subarray_append (buffer more : Bytes) (first last : Nat) (h : last ≤ buffer.length) :
    subarray (buffer ++ more) first last = subarray buffer first last := by
  rw [subarray, subarray, List.take_append_of_le_length h]

theorem headerAt_append (buffer more : Bytes) (separator : Nat) (h : separator ≤ buffer.length) :
    headerAt (buffer ++ more) separator = headerAt buffer separator := by
  rw [headerAt, headerAt, subarray_append _ _ _ _ h]

theorem bodyAt_append (buffer more : Bytes) (separator contentLength : Nat)
    (h : separator + 4 + contentLength ≤ buffer.length) :
    bodyAt (buffer ++ more) separator contentLength = bodyAt buffer separator contentLength := by
  rw [bodyAt, bodyAt, subarray_append _ _ _ _ h]

theorem decode_lawful : Lawful (decodeContentLengthFrame json) where
  consumes := by
    intro buffer message n h
    obtain ⟨separator, contentLength, -, -, rfl, hfit, -⟩ := (decode_frame_iff json _ _ _).mp h
    exact ⟨by omega, hfit⟩
  frame_append := by
    intro buffer more r h
    obtain ⟨message, n⟩ := r
    obtain ⟨separator, contentLength, hsep, hlen, rfl, hfit, hbody⟩ :=
      (decode_frame_iff json _ _ _).mp h
    refine (decode_frame_iff json _ _ _).mpr
      ⟨separator, contentLength, firstIndexOf_append _ _ _ _ hsep, ?_, rfl, ?_, ?_⟩
    · rw [headerAt_append _ _ _ (by omega)]
      exact hlen
    · rw [List.length_append]
      omega
    · rw [bodyAt_append _ _ _ _ hfit]
      exact hbody
  error_append := by
    intro buffer more e h
    obtain ⟨separator, hsep, hcase⟩ := (decode_error_iff json _ _).mp h
    have hend := separator_fits hsep
    refine (decode_error_iff json _ _).mpr ⟨separator, firstIndexOf_append _ _ _ _ hsep, ?_⟩
    rw [headerAt_append _ _ _ (by omega)]
    obtain hlen | ⟨contentLength, hlen, hfit, hbody⟩ := hcase
    · exact Or.inl hlen
    · refine Or.inr ⟨contentLength, hlen, ?_, ?_⟩
      · rw [List.length_append]
        omega
      · rw [bodyAt_append _ _ _ _ hfit]
        exact hbody

/-- The header block of an encoded message, without the separator. -/
def headerText (length : Nat) : JsString := js "Content-Length: " ++ decimal length

theorem headerText_isAscii (length : Nat) : IsAscii (headerText length) := by
  have hname : IsAscii (js "Content-Length: ") := by decide
  intro u hu
  obtain h | h := List.mem_append.mp hu
  · exact hname u h
  · exact decimal_isAscii length u h

theorem cr_not_mem_headerText (length : Nat) : (13 : UInt16) ∉ headerText length := by
  intro h
  obtain h | h := List.mem_append.mp h
  · exact absurd h (by decide)
  · exact absurd (decimal_digits length 13 h) (by decide)

theorem trim_value (n : Nat) : trim (32 :: decimal n) = decimal n := by
  have hspace : isWhiteSpace 32 = true := by decide
  have htrim := trim_digits (decimal n) (decimal_digits n)
  rw [trim, trimStart] at htrim ⊢
  rw [List.dropWhile_cons, if_pos hspace]
  exact htrim

theorem headerText_eq (length : Nat) :
    headerText length = js "Content-Length" ++ ([58] ++ 32 :: decimal length) := by
  have hname : js "Content-Length: " = js "Content-Length" ++ [58, 32] := by decide
  rw [headerText, hname, List.append_assoc]
  rfl

theorem headerLine_headerText (length : Nat) (h : length < overflow) (previous : Option Nat) :
    headerLine previous (headerText length) = .ok (some length) := by
  have hlength : (js "Content-Length").length = 14 := by decide
  have hcolon : js ":" = [58] := by decide
  have hindex : firstIndexOf [58] (headerText length) = some 14 := by
    rw [headerText_eq, firstIndexOf_skip 58 [] _ _ (by decide), hlength]
  have hname : (headerText length).take 14 = js "Content-Length" := by
    rw [headerText_eq, ← hlength, List.take_left]
  have hvalue : (headerText length).drop 15 = 32 :: decimal length := by
    rw [headerText_eq, ← List.append_assoc]
    exact List.drop_left' (by rw [List.length_append, hlength]; rfl)
  have hlower : toLowerCase (trim (js "Content-Length")) = js "content-length" := by decide
  simp only [headerLine, hcolon, hindex, hname, hlower, if_true, hvalue, trim_value,
    parseInt_decimal length h]

theorem contentLengthOf_headerText (length : Nat) (h : length < overflow) :
    contentLengthOf (headerText length) = .ok length := by
  have hsplit : split (headerText length) crlf = [headerText length] :=
    split_of_not_mem 13 [10] _ (cr_not_mem_headerText length)
  rw [contentLengthOf, headerLines, hsplit]
  simp only [List.foldlM_cons, List.foldlM_nil, headerLine_headerText length h]
  rfl

theorem header_bytes (length : Nat) :
    bufferFrom (js "Content-Length: " ++ decimal length ++ js "\r\n\r\n") =
      bufferFrom (headerText length) ++ separatorBytes := by
  have hsep : IsAscii (js "\r\n\r\n") := by decide
  have hhead := headerText_isAscii length
  have hall : IsAscii (headerText length ++ js "\r\n\r\n") := by
    intro u hu
    obtain h | h := List.mem_append.mp hu
    · exact hhead u h
    · exact hsep u h
  rw [separatorBytes, bufferFrom_ascii _ hhead, bufferFrom_ascii _ hsep, ← List.map_append]
  exact bufferFrom_ascii _ hall

theorem cr_not_mem_header_bytes (length : Nat) : (13 : UInt8) ∉ bufferFrom (headerText length) := by
  rw [bufferFrom_ascii _ (headerText_isAscii length)]
  intro h
  obtain ⟨u, hu, heq⟩ := List.mem_map.mp h
  have hlt := headerText_isAscii length u hu
  have hu13 : u = 13 := by
    rw [← UInt16.toNat_inj]
    have := congrArg UInt8.toNat heq
    rw [toNat_ofNat (by omega)] at this
    exact this
  exact cr_not_mem_headerText length (hu13 ▸ hu)

theorem body_length_lt (message : V) :
    (bufferFrom (json.stringify message)).length < overflow := by
  have h1 := bufferFrom_length (json.stringify message)
  have h2 := json.stringify_length message
  have h3 : 3 * maxStringLength < overflow := by decide +kernel
  omega

theorem subarray_middle (xs ys zs : Bytes) :
    subarray (xs ++ (ys ++ zs)) xs.length (xs.length + ys.length) = ys := by
  rw [subarray, List.take_length_add_append, List.take_left, List.drop_left]

/-- A header block announcing the length of the body behind it is decoded whatever
bytes follow. -/
theorem decode_block (head body more : Bytes) (message : V) (hcr : (13 : UInt8) ∉ head)
    (hlen : contentLengthOf (bufferToString head) = .ok body.length)
    (hbody : parseBody json (bufferToString body) = .ok message) :
    decodeContentLengthFrame json (head ++ (separatorBytes ++ (body ++ more))) =
      .ok (some (message, head.length + 4 + body.length)) := by
  have hsep : firstIndexOf separatorBytes (head ++ (separatorBytes ++ (body ++ more))) =
      some head.length := firstIndexOf_skip 13 [10, 13, 10] head _ hcr
  have hhead : headerAt (head ++ (separatorBytes ++ (body ++ more))) head.length =
      bufferToString head := by
    rw [headerAt, subarray, List.drop_zero, List.take_left]
  have hmid := subarray_middle (head ++ separatorBytes) body more
  rw [List.append_assoc, List.length_append, separatorBytes_length] at hmid
  refine (decode_frame_iff json _ _ _).mpr
    ⟨head.length, body.length, hsep, ?_, rfl, ?_, ?_⟩
  · rw [hhead]
    exact hlen
  · simp only [List.length_append, separatorBytes_length]
    omega
  · rw [bodyAt, hmid]
    exact hbody

theorem encode_eq (message : V) :
    encodeContentLengthFrame json message =
      bufferFrom (headerText (bufferFrom (json.stringify message)).length) ++
        (separatorBytes ++ bufferFrom (json.stringify message)) := by
  simp only [encodeContentLengthFrame]
  rw [header_bytes, List.append_assoc]

/-- An encoded message is decoded whatever bytes follow it. -/
theorem decode_encode (message : V) (more : Bytes) :
    decodeContentLengthFrame json (encodeContentLengthFrame json message ++ more) =
      .ok (some (message, (encodeContentLengthFrame json message).length)) := by
  have hlen := contentLengthOf_headerText _ (body_length_lt json message)
  rw [← bufferToString_bufferFrom _ (wellFormed_ascii _ (headerText_isAscii _))] at hlen
  have hbody : parseBody json (bufferToString (bufferFrom (json.stringify message))) =
      .ok message := by
    rw [bufferToString_bufferFrom _ (json.stringify_wellFormed message), parseBody,
      json.parse_stringify]
  have hblock := decode_block json _ _ more message (cr_not_mem_header_bytes _) hlen hbody
  rw [encode_eq, List.append_assoc, List.append_assoc, hblock]
  rw [List.length_append, List.length_append, separatorBytes_length, Nat.add_assoc]

end codec

end Solarcido.Framing
