import Solarcido.Framing.Protocol

namespace Solarcido.Framing

open Search Text Utf8 ChunkedDecoder

variable {V : Type} (json : JsonCodec V)

/-- What comes out of a reader: a message for its handler, a parse error for its
handler, or an exception that leaves `onChunk`. -/
inductive Delivery (V : Type) where
  | message (value : V)
  | parseError (error : FramingError)
  | thrown (error : FramingError)
  deriving DecidableEq

/-- A stdio transport whose handler is registered. -/
structure Transport (V : Type) where
  buffer : Bytes
  closed : Bool
  delivered : List (Delivery V)
  deriving DecidableEq

def Transport.fresh : Transport V := ⟨[], false, []⟩

/-- The client readers let an exception of the decoder out of the loop: the
buffer stays where it was. -/
def clientPolicy : Policy UInt8 V FramingError (Delivery V) where
  accept := .message
  report := .thrown
  keep := id

/-- The server reader catches it: it drops the buffer and reports a parse error. -/
def serverPolicy : Policy UInt8 V FramingError (Delivery V) where
  accept := .message
  report := .parseError
  keep := fun _ => []

def onChunkWith (policy : Policy UInt8 V FramingError (Delivery V)) (t : Transport V)
    (chunk : Bytes) : Transport V :=
  let r := feed (decodeContentLengthFrame json) policy ⟨t.buffer, t.delivered⟩ chunk
  { t with buffer := r.buffer, delivered := r.log }

/-- The MCP client's reader. -/
def StdioTransport.onChunk (t : Transport V) (chunk : Bytes) : Transport V :=
  onChunkWith json clientPolicy t chunk

/-- The LSP client's reader. -/
def LspStdioTransport.onChunk (t : Transport V) (chunk : Bytes) : Transport V :=
  onChunkWith json clientPolicy t chunk

/-- The MCP server's reader. -/
def StdioServerTransport.onChunk (t : Transport V) (chunk : Bytes) : Transport V :=
  onChunkWith json serverPolicy t chunk

/-- The bytes a peer writes for some messages. -/
def frames (messages : List V) : Bytes := (messages.map (encodeContentLengthFrame json)).flatten

theorem onChunkWith_foldl (policy : Policy UInt8 V FramingError (Delivery V)) (t : Transport V)
    (chunks : List Bytes) :
    chunks.foldl (onChunkWith json policy) t =
      { t with
        buffer := (feedAll (decodeContentLengthFrame json) policy ⟨t.buffer, t.delivered⟩
          chunks).buffer
        delivered := (feedAll (decodeContentLengthFrame json) policy ⟨t.buffer, t.delivered⟩
          chunks).log } := by
  induction chunks generalizing t with
  | nil => rfl
  | cons c cs ih => exact ih (onChunkWith json policy t c)

theorem drain_frames (messages : List V) (more : Bytes) :
    drain (decodeContentLengthFrame json) (frames json messages ++ more) =
      { drain (decodeContentLengthFrame json) more with
        messages := messages ++ (drain (decodeContentLengthFrame json) more).messages } :=
  drain_encoded (decode_lawful json) _ (decode_encode json) messages more

theorem drain_nil : drain (decodeContentLengthFrame json) [] = ⟨[], [], none⟩ := rfl

/-- Whatever a reader does on failure, well-formed frames come out as they went in. -/
theorem onChunkWith_frames (policy : Policy UInt8 V FramingError (Delivery V)) (t : Transport V)
    (ht : t.buffer = []) (messages : List V) (chunks : List Bytes)
    (h : chunks.flatten = frames json messages) :
    chunks.foldl (onChunkWith json policy) t =
      { t with delivered := t.delivered ++ messages.map policy.accept } := by
  have hdrain := drain_frames json messages []
  rw [drain_nil, List.append_nil, List.append_nil, ← h] at hdrain
  have hclean := feedAll_clean policy (decode_lawful json) ⟨[], t.delivered⟩ chunks rfl
    (by rw [List.nil_append, hdrain])
  rw [List.nil_append, hdrain] at hclean
  rw [onChunkWith_foldl, ht]
  simp only [hclean]

/-- The three readers deliver the messages of a stream in order, each once, however
the stream is cut into chunks, and are left with an empty buffer. -/
theorem readers_round_trip (messages : List V) (chunks : List Bytes)
    (h : chunks.flatten = frames json messages) :
    chunks.foldl (StdioTransport.onChunk json) Transport.fresh =
        ⟨[], false, messages.map .message⟩ ∧
      chunks.foldl (StdioServerTransport.onChunk json) Transport.fresh =
        ⟨[], false, messages.map .message⟩ ∧
      chunks.foldl (LspStdioTransport.onChunk json) Transport.fresh =
        ⟨[], false, messages.map .message⟩ :=
  ⟨onChunkWith_frames json clientPolicy .fresh rfl messages chunks h,
    onChunkWith_frames json serverPolicy .fresh rfl messages chunks h,
    onChunkWith_frames json clientPolicy .fresh rfl messages chunks h⟩

/-- JSON's two truth values, as a small instance of the codec. -/
def boolJson : JsonCodec Bool where
  stringify b := if b then js "true" else js "false"
  parse s :=
    if s = js "true" then .ok true
    else if s = js "false" then .ok false
    else .error (js "Unexpected token")
  parse_stringify := by decide
  stringify_wellFormed b := wellFormed_ascii _ (by cases b <;> decide)
  stringify_length := by decide

theorem readers_round_trip_cut :
    let chunks := [bufferFrom (js "Content-Length: 4\r"), [], bufferFrom (js "\n\r\ntr"),
      bufferFrom (js "ueContent-Length: 5\r\n\r\nfalse")]
    chunks.flatten = frames boolJson [true, false] ∧
      chunks.foldl (StdioTransport.onChunk boolJson) Transport.fresh =
        ⟨[], false, [.message true, .message false]⟩ :=
  ⟨by decide +kernel, (readers_round_trip boolJson [true, false] _ (by decide +kernel)).1⟩

/-- Bytes that start with a malformed frame: a header block that announces no
length, or one whose body is there and is no JSON. -/
def Malformed (bad : Bytes) : Prop :=
  ∃ separator, firstIndexOf separatorBytes bad = some separator ∧
    ((∀ n, contentLengthOf (headerAt bad separator) ≠ .ok n) ∨
      ∃ n, contentLengthOf (headerAt bad separator) = .ok n ∧ separator + 4 + n ≤ bad.length ∧
        ∀ v, json.parse (bodyAt bad separator n) ≠ .ok v)

theorem decode_malformed (bad : Bytes) (h : Malformed json bad) :
    ∃ e, decodeContentLengthFrame json bad = .error e := by
  obtain ⟨separator, hsep, hcase⟩ := h
  obtain hhead | ⟨n, hlen, hfit, hbody⟩ := hcase
  · cases hlen : contentLengthOf (headerAt bad separator) with
    | error e => exact ⟨e, (decode_error_iff json _ _).mpr ⟨separator, hsep, Or.inl hlen⟩⟩
    | ok n => exact absurd hlen (hhead n)
  · cases hparse : json.parse (bodyAt bad separator n) with
    | ok v => exact absurd hparse (hbody v)
    | error message =>
      refine ⟨⟨js "invalid JSON body: " ++ message⟩, (decode_error_iff json _ _).mpr
        ⟨separator, hsep, Or.inr ⟨n, hlen, hfit, ?_⟩⟩⟩
      rw [parseBody, hparse]

/-- Each further chunk makes the reader fail again. -/
def Stuck (onChunk : Transport V → Bytes → Transport V) (t : Transport V) : Prop :=
  ∃ e, ∀ (chunks : List Bytes) (chunk : Bytes),
    (onChunk (chunks.foldl onChunk t) chunk).delivered.getLast? = some (.thrown e)

def messagesOf (delivered : List (Delivery V)) : List V :=
  delivered.filterMap fun d => match d with
    | .message v => some v
    | _ => none

/-- A reader has come through a malformed frame: it has failed the connection or
delivered the frames behind it, and it is not stuck in front of it. -/
def ComesThrough (onChunk : Transport V → Bytes → Transport V) (t : Transport V)
    (earlier later : List V) : Prop :=
  (t.closed = true ∨ messagesOf t.delivered = earlier ++ later) ∧ ¬ Stuck onChunk t

theorem stuck_of_error (t : Transport V) (e : FramingError)
    (h : decodeContentLengthFrame json t.buffer = .error e) :
    Stuck (onChunkWith json clientPolicy) t := by
  refine ⟨e, ?_⟩
  intro chunks chunk
  have hafter := feedAll_after_failure clientPolicy (decode_lawful json) rfl e
    ⟨t.buffer, t.delivered⟩ (chunks ++ [chunk]) h
  have hfold := onChunkWith_foldl json clientPolicy t (chunks ++ [chunk])
  rw [List.foldl_append, hafter] at hfold
  rw [List.foldl_cons, List.foldl_nil] at hfold
  rw [hfold, List.length_append, List.length_singleton, List.replicate_succ', ← List.append_assoc]
  exact List.getLast?_concat

/-- A client reader delivers what came before a malformed frame, and then throws on
each chunk from there on, with the connection still open. -/
theorem client_after_malformed (earlier : List V) (bad more : Bytes) (chunks : List Bytes)
    (hbad : Malformed json bad) (h : chunks.flatten = frames json earlier ++ (bad ++ more)) :
    ∃ e k, chunks.foldl (onChunkWith json clientPolicy) Transport.fresh =
        ⟨bad ++ more, false, earlier.map .message ++ List.replicate (k + 1) (.thrown e)⟩ ∧
      Stuck (onChunkWith json clientPolicy)
        (chunks.foldl (onChunkWith json clientPolicy) Transport.fresh) := by
  obtain ⟨e, he⟩ := decode_malformed json bad hbad
  have herr := (decode_lawful json).error_append bad more e he
  have hdrain := drain_frames json earlier (bad ++ more)
  rw [drain_error herr, List.append_nil, ← h] at hdrain
  obtain ⟨k, hk⟩ := feedAll_stuck clientPolicy (decode_lawful json) rfl e ⟨[], []⟩
    chunks rfl (by rw [List.nil_append, hdrain])
  rw [List.nil_append, hdrain] at hk
  have hend : chunks.foldl (onChunkWith json clientPolicy) Transport.fresh =
      ⟨bad ++ more, false, earlier.map .message ++ List.replicate (k + 1) (.thrown e)⟩ := by
    rw [onChunkWith_foldl]
    simp only [Transport.fresh, hk, List.nil_append]
    rfl
  refine ⟨e, k, hend, stuck_of_error json _ e ?_⟩
  rw [hend]
  exact herr

/-- Neither client reader comes through a malformed frame, whatever precedes and
follows it and however the stream is cut. -/
theorem clients_never_come_through (earlier later : List V) (bad : Bytes) (chunks : List Bytes)
    (hbad : Malformed json bad)
    (h : chunks.flatten = frames json earlier ++ (bad ++ frames json later)) :
    ¬ ComesThrough (StdioTransport.onChunk json)
        (chunks.foldl (StdioTransport.onChunk json) Transport.fresh) earlier later ∧
      ¬ ComesThrough (LspStdioTransport.onChunk json)
        (chunks.foldl (LspStdioTransport.onChunk json) Transport.fresh) earlier later := by
  obtain ⟨e, k, -, hstuck⟩ := client_after_malformed json earlier bad _ chunks hbad h
  exact ⟨fun hthrough => hthrough.2 hstuck, fun hthrough => hthrough.2 hstuck⟩

theorem no_length_malformed : Malformed boolJson (bufferFrom (js "X: 1\r\n\r\n")) := by
  refine ⟨4, by decide, Or.inl ?_⟩
  intro n
  have h : contentLengthOf (headerAt (bufferFrom (js "X: 1\r\n\r\n")) 4) =
      .error ⟨js "missing Content-Length header"⟩ := by decide +kernel
  rw [h]
  simp

theorem clients_never_come_through_no_length :
    let chunks := [bufferFrom (js "X: 1\r\n\r\n"), frames boolJson [true]]
    ¬ ComesThrough (StdioTransport.onChunk boolJson)
      (chunks.foldl (StdioTransport.onChunk boolJson) Transport.fresh) [] [true] :=
  (clients_never_come_through boolJson [] [true] _ _ no_length_malformed (by decide +kernel)).1

/-- A header block without a length in front of a well-formed frame: the frame is
not delivered and the connection stays open. -/
theorem header_without_length_blocks :
    let bad := bufferFrom (js "X: 1\r\n\r\n")
    let chunks := [bad, frames boolJson [true]]
    Malformed boolJson bad ∧
      chunks.flatten = frames boolJson [] ++ (bad ++ frames boolJson [true]) ∧
      ¬ ComesThrough (StdioTransport.onChunk boolJson)
        (chunks.foldl (StdioTransport.onChunk boolJson) Transport.fresh) [] [true] ∧
      ¬ ComesThrough (LspStdioTransport.onChunk boolJson)
        (chunks.foldl (LspStdioTransport.onChunk boolJson) Transport.fresh) [] [true] :=
  ⟨no_length_malformed, by decide +kernel, fun h => absurd h.1 (by decide +kernel),
    fun h => absurd h.1 (by decide +kernel)⟩

/-- The server reader, which drops the buffer on failure, is not stuck: fed the bad
bytes as a chunk of their own it goes on to deliver what follows. -/
theorem server_after_malformed (earlier later : List V) (bad : Bytes) (chunks : List Bytes)
    (hbad : Malformed json bad) (h : chunks.flatten = frames json later) :
    ∃ e, ([frames json earlier, bad] ++ chunks).foldl (StdioServerTransport.onChunk json)
        Transport.fresh =
      ⟨[], false, earlier.map .message ++ [.parseError e] ++ later.map .message⟩ := by
  obtain ⟨e, he⟩ := decode_malformed json bad hbad
  have hearlier : onChunkWith json serverPolicy .fresh (frames json earlier) =
      ⟨[], false, earlier.map .message⟩ :=
    onChunkWith_frames json serverPolicy .fresh rfl earlier [frames json earlier] (by simp)
  have hbad' : onChunkWith json serverPolicy ⟨[], false, earlier.map .message⟩ bad =
      ⟨[], false, earlier.map .message ++ [.parseError e]⟩ := by
    have hdrain := drain_error he
    simp only [onChunkWith]
    rw [feed_failing serverPolicy _ bad e (by rw [List.nil_append, hdrain]), List.nil_append,
      hdrain]
    simp [serverPolicy]
  refine ⟨e, ?_⟩
  rw [List.foldl_append]
  have hstart : [frames json earlier, bad].foldl (StdioServerTransport.onChunk json) .fresh =
      ⟨[], false, earlier.map .message ++ [.parseError e]⟩ := by
    rw [List.foldl_cons, List.foldl_cons, List.foldl_nil]
    unfold StdioServerTransport.onChunk
    rw [hearlier, hbad']
  rw [hstart]
  exact onChunkWith_frames json serverPolicy _ rfl later chunks h

end Solarcido.Framing
