import Solarcido.Mcp.Exchange

namespace Solarcido.Mcp

open Text Rpc Framing ChunkedDecoder Server

/-- A client session and a server session with their stdio transports, and the bytes on their way
between these. -/
structure Link (V E : Type) where
  client : ClientSession E
  clientTransport : Transport V
  sent : List (Nat × V)
  requests : Bytes
  server : ServerSession
  serverTransport : Transport V
  answered : List (Nat × V)
  responses : Bytes

/-- What happens on a link. A side reads so many of the bytes that are on their way to it. -/
inductive LinkEvent where
  | request (method : JsString) (params : Option Json)
  | timeout (k : Nat)
  | sendFailed (k : Nat) (error : Thrown)
  | sent (k : Nat)
  | close
  | serverReads (n : Nat)
  | toolDone (i : Nat) (outcome : ToolOutcome)
  | respond (i : Nat)
  | stop
  | clientReads (n : Nat)

namespace Link

variable {texts : TemplateText} {V E : Type} (json : JsonCodec V) (wire : Wire V)
  (kind : ClientKind texts E) (spec : McpServerSpec)

def new : Link V E := ⟨.new, .fresh, [], [], .new, .fresh, [], []⟩

/-- The link without its bytes: of the messages on their way only the number is kept. -/
def exchange (s : Link V E) : Exchange V E :=
  ⟨s.client, s.clientTransport.closed, s.sent, s.serverTransport.delivered.length, s.server,
    s.answered, s.clientTransport.delivered.length⟩

/-- `StdioTransport.send` after `request`. -/
def request (method : JsString) (params : Option Json) (s : Link V E) : Link V E :=
  let written := if s.clientTransport.closed then none
    else wire.written (makeRequest s.client.takeId method params).envelope
  { s with
    client := s.client.request kind method params none
    sent := s.sent ++ (written.map fun v => (s.client.table.issued, v)).toList
    requests := s.requests ++ frames json written.toList }

/-- `close` of the client session: its transport kills the server. -/
def close (s : Link V E) : Link V E :=
  { s with
    client := s.client.close kind
    clientTransport := { s.clientTransport with closed := true } }

/-- A stopped server listens to its input no more. -/
def serverReads (n : Nat) (s : Link V E) : Link V E :=
  if s.serverTransport.closed then s
  else
    let t := StdioServerTransport.onChunk json s.serverTransport (s.requests.take n)
    { s with
      requests := s.requests.drop n
      serverTransport := t
      server := Serial.runAll (ServerSession.step spec) s.server
        ((t.delivered.drop s.serverTransport.delivered.length).map (inbound wire.read)) }

/-- `StdioServerTransport.send` of the reply to a delivery. -/
def respond (i : Nat) (s : Link V E) : Link V E :=
  if s.serverTransport.closed then s
  else
    let written := s.exchange.response wire i
    { s with
      answered := s.answered ++ (written.map fun w => (i, w)).toList
      responses := s.responses ++ frames json written.toList }

def stop (s : Link V E) : Link V E :=
  { s with
    server := s.server.step spec .close
    serverTransport := { s.serverTransport with closed := true } }

/-- What the client's transport hands its session; an exception is no message. -/
def handed : Delivery V → Option ClientEvent
  | .message w => some (.message (wire.read w))
  | _ => none

def clientReads (n : Nat) (s : Link V E) : Link V E :=
  let t := StdioTransport.onChunk json s.clientTransport (s.responses.take n)
  { s with
    responses := s.responses.drop n
    clientTransport := t
    client := Serial.runAll (ClientSession.step kind) s.client
      ((t.delivered.drop s.clientTransport.delivered.length).filterMap (handed wire)) }

def step (s : Link V E) : LinkEvent → Link V E
  | .request method params => s.request json wire kind method params
  | .timeout k => { s with client := s.client.timeout texts k }
  | .sendFailed k error => { s with client := s.client.sendFailed texts k error }
  | .sent k => { s with client := s.client.endSend k }
  | .close => s.close kind
  | .serverReads n => s.serverReads json wire spec n
  | .toolDone i outcome => { s with server := s.server.toolDone i outcome }
  | .respond i => s.respond json wire i
  | .stop => s.stop spec
  | .clientReads n => s.clientReads json wire kind n

def after (events : List LinkEvent) : Link V E :=
  Serial.runAll (step json wire kind spec) new events

/-- A transport that has read part of a stream of messages: it has delivered the first of them, and
what it has left over carries the others together with the bytes on their way. -/
structure Flows (messages : List V) (t : Transport V) (coming : Bytes) : Prop where
  count : t.delivered.length ≤ messages.length
  delivered : t.delivered = (messages.take t.delivered.length).map .message
  carries : Carries (decodeContentLengthFrame json) (t.buffer ++ coming)
    (messages.drop t.delivered.length)
  waits : Waits (decodeContentLengthFrame json) t.buffer

section flows

variable {json} {messages : List V} {t : Transport V} {coming : Bytes}

theorem flows_fresh : Flows json [] .fresh [] where
  count := Nat.le_refl _
  delivered := rfl
  carries := carries_nil rfl
  waits := drain_wait rfl

theorem Flows.closed (h : Flows json messages t coming) (closed : Bool) :
    Flows json messages { t with closed := closed } coming :=
  ⟨h.count, h.delivered, h.carries, h.waits⟩

theorem Flows.write (h : Flows json messages t coming) (written : Option V) :
    Flows json (messages ++ written.toList) t (coming ++ frames json written.toList) := by
  cases written with
  | none =>
    rw [Option.toList_none, frames, List.map_nil, List.flatten_nil, List.append_nil,
      List.append_nil]
    exact h
  | some v =>
    have hframe := decode_encode json v []
    rw [List.append_nil] at hframe
    refine ⟨?_, ?_, ?_, h.waits⟩
    · rw [List.length_append]
      exact Nat.le_add_right_of_le h.count
    · rw [List.take_append_of_le_length h.count]
      exact h.delivered
    · rw [List.drop_append_of_le_length h.count, ← List.append_assoc]
      have hframes : frames json (some v).toList = encodeContentLengthFrame json v := by
        simp [frames]
      rw [hframes]
      exact h.carries.write (decode_lawful json) hframe

/-- A chunk delivers the next messages of the stream, no others. -/
theorem Flows.read (h : Flows json messages t coming)
    (policy : Policy UInt8 V FramingError (Delivery V)) (hpolicy : policy.accept = .message)
    (n : Nat) :
    let t' := onChunkWith json policy t (coming.take n)
    Flows json messages t' (coming.drop n) ∧ t'.closed = t.closed ∧
      ∃ next, t'.delivered = t.delivered ++ next.map .message ∧
        next <+: messages.drop t.delivered.length := by
  have hcarries := h.carries
  rw [← List.take_append_drop n coming, ← List.append_assoc] at hcarries
  obtain ⟨hclean, unread, hsplit, hrest⟩ := hcarries.read (decode_lawful json)
  have hfeed := feed_clean policy ⟨t.buffer, t.delivered⟩ (coming.take n) hclean
  have hread : messages.take (t.delivered.length +
      (drain (decodeContentLengthFrame json) (t.buffer ++ coming.take n)).messages.length) =
        messages.take t.delivered.length ++
          (drain (decodeContentLengthFrame json) (t.buffer ++ coming.take n)).messages := by
    rw [List.take_add, hsplit, List.take_left]
  have hcount := congrArg List.length hsplit
  rw [List.length_drop, List.length_append] at hcount
  have hbound := h.count
  simp only [onChunkWith, hfeed, hpolicy]
  refine ⟨⟨?_, ?_, ?_, waits_rest (decode_lawful json) hclean⟩, trivial, _, rfl, ?_⟩
  · rw [List.length_append, List.length_map]
    omega
  · rw [List.length_append, List.length_map, hread, List.map_append, ← h.delivered]
  · rw [List.length_append, List.length_map, ← List.drop_drop, hsplit, List.drop_left]
    exact hrest
  · rw [hsplit]
    exact List.prefix_append _ _

/-- A stream of which nothing is coming has been delivered. -/
theorem Flows.all_delivered (h : Flows json messages t []) :
    t.delivered = messages.map .message ∧ t.delivered.length = messages.length := by
  have hcarries := h.carries
  rw [List.append_nil] at hcarries
  have hlength := congrArg List.length (h.waits.carries_nothing hcarries)
  rw [List.length_drop, List.length_nil] at hlength
  have hall : t.delivered.length = messages.length := by
    have hcount := h.count
    omega
  refine ⟨?_, hall⟩
  have hdelivered := h.delivered
  rw [hall, List.take_length] at hdelivered
  exact hdelivered

end flows

/-- Both directions of a link carry what was written and has not been read. -/
structure Sound (s : Link V E) : Prop where
  requests : Flows json (s.sent.map Prod.snd) s.serverTransport s.requests
  responses : Flows json (s.answered.map Prod.snd) s.clientTransport s.responses

/-- What an event of a link is in its exchange: reading bytes is to receive the messages that are
complete with them. -/
def moves (s : Link V E) : LinkEvent → List ExchangeEvent
  | .request method params => [.request method params]
  | .timeout k => [.timeout k]
  | .sendFailed k error => [.sendFailed k error]
  | .sent k => [.sent k]
  | .close => [.close]
  | .serverReads n =>
    List.replicate ((s.serverReads json wire spec n).serverTransport.delivered.length -
      s.serverTransport.delivered.length) .receive
  | .toolDone i outcome => [.toolDone i outcome]
  | .respond i => if s.serverTransport.closed then [] else [.respond i]
  | .stop => [.stop]
  | .clientReads n =>
    List.replicate ((s.clientReads json wire kind n).clientTransport.delivered.length -
      s.clientTransport.delivered.length) .take

section refinement

variable {json} {s : Link V E}

theorem sound_new : Sound json (new : Link V E) := ⟨flows_fresh, flows_fresh⟩

theorem map_written (written : Option V) (k : Nat) :
    ((written.map fun v => (k, v)).toList).map Prod.snd = written.toList := by
  cases written with
  | none => rfl
  | some v => rfl

theorem request_refines (h : Sound json s) (method : JsString) (params : Option Json) :
    Sound json (s.request json wire kind method params) ∧
      (s.request json wire kind method params).exchange =
        s.exchange.request wire kind method params := by
  refine ⟨⟨?_, h.responses⟩, ?_⟩
  · simp only [request, List.map_append, map_written]
    exact h.requests.write _
  · rfl

theorem respond_refines (h : Sound json s) (hopen : s.serverTransport.closed = false) (i : Nat) :
    Sound json (s.respond json wire i) ∧
      (s.respond json wire i).exchange = s.exchange.respond wire i := by
  have hrespond : s.respond json wire i =
      { s with
        answered := s.answered ++ ((s.exchange.response wire i).map fun w => (i, w)).toList
        responses := s.responses ++ frames json (s.exchange.response wire i).toList } := by
    rw [respond, hopen]
    rfl
  rw [hrespond]
  refine ⟨⟨h.requests, ?_⟩, rfl⟩
  simp only [List.map_append, map_written]
  exact h.responses.write _

theorem serverReads_refines (h : Sound json s) (hopen : s.serverTransport.closed = false)
    (n : Nat) :
    Sound json (s.serverReads json wire spec n) ∧
      (s.serverReads json wire spec n).exchange =
        Serial.runAll (Exchange.step wire kind spec) s.exchange
          (moves json wire kind spec s (.serverReads n)) := by
  obtain ⟨hflows, hclosed, next, hdelivered, hprefix⟩ := h.requests.read serverPolicy rfl n
  have hreads : s.serverReads json wire spec n =
      { s with
        requests := s.requests.drop n
        serverTransport := StdioServerTransport.onChunk json s.serverTransport (s.requests.take n)
        server := Serial.runAll (ServerSession.step spec) s.server
          (next.map fun v => .message (wire.read v)) } := by
    rw [serverReads, hopen, if_neg (by simp)]
    simp only [StdioServerTransport.onChunk, hdelivered, List.drop_left, List.map_map]
    rfl
  rw [moves, hreads]
  refine ⟨⟨hflows, h.responses⟩, ?_⟩
  simp only [StdioServerTransport.onChunk, hdelivered, List.length_append, List.length_map,
    Nat.add_sub_cancel_left]
  rw [Exchange.receive_all kind hprefix]
  simp only [exchange, hdelivered, List.length_append, List.length_map]

theorem clientReads_refines (h : Sound json s) (n : Nat) :
    Sound json (s.clientReads json wire kind n) ∧
      (s.clientReads json wire kind n).exchange =
        Serial.runAll (Exchange.step wire kind spec) s.exchange
          (moves json wire kind spec s (.clientReads n)) := by
  obtain ⟨hflows, hclosed, next, hdelivered, hprefix⟩ := h.responses.read clientPolicy rfl n
  have hreads : s.clientReads json wire kind n =
      { s with
        responses := s.responses.drop n
        clientTransport := StdioTransport.onChunk json s.clientTransport (s.responses.take n)
        client := Serial.runAll (ClientSession.step kind) s.client
          (next.map fun w => .message (wire.read w)) } := by
    rw [clientReads]
    simp only [StdioTransport.onChunk, hdelivered, List.drop_left, List.filterMap_map]
    congr 2
    rw [← List.filterMap_eq_map]
    rfl
  rw [moves, hreads]
  refine ⟨⟨h.requests, hflows⟩, ?_⟩
  simp only [StdioTransport.onChunk, hdelivered, List.length_append, List.length_map,
    Nat.add_sub_cancel_left]
  rw [Exchange.take_all spec hprefix]
  simp only [exchange, hdelivered, hclosed, List.length_append, List.length_map]

/-- One event of a link is a run of its exchange. -/
theorem step_refines (h : Sound json s) (event : LinkEvent) :
    Sound json (step json wire kind spec s event) ∧
      (step json wire kind spec s event).exchange =
        Serial.runAll (Exchange.step wire kind spec) s.exchange
          (moves json wire kind spec s event) := by
  cases event with
  | request method params => exact request_refines wire kind h method params
  | timeout k => exact ⟨⟨h.requests, h.responses⟩, rfl⟩
  | sendFailed k error => exact ⟨⟨h.requests, h.responses⟩, rfl⟩
  | sent k => exact ⟨⟨h.requests, h.responses⟩, rfl⟩
  | close => exact ⟨⟨h.requests, h.responses.closed true⟩, rfl⟩
  | serverReads n =>
    rw [step]
    cases hclosed : s.serverTransport.closed with
    | false => exact serverReads_refines wire kind spec h hclosed n
    | true =>
      have hsame : s.serverReads json wire spec n = s := by rw [serverReads, hclosed, if_pos rfl]
      rw [moves, hsame, Nat.sub_self]
      exact ⟨h, rfl⟩
  | toolDone i outcome => exact ⟨⟨h.requests, h.responses⟩, rfl⟩
  | respond i =>
    rw [step, moves]
    cases hclosed : s.serverTransport.closed with
    | false => exact respond_refines wire h hclosed i
    | true =>
      have hsame : s.respond json wire i = s := by rw [respond, hclosed, if_pos rfl]
      rw [hsame]
      exact ⟨h, rfl⟩
  | stop => exact ⟨⟨h.requests.closed true, h.responses⟩, rfl⟩
  | clientReads n => exact clientReads_refines wire kind spec h n

variable (json) in
/-- Whatever happens on a link, its exchange has come about by a run of its own, and both streams
carry what was written and has not been read. -/
theorem after_refines (events : List LinkEvent) :
    Sound json (after json wire kind spec events) ∧
      ∃ moves, (after json wire kind spec events).exchange =
        Exchange.after wire kind spec moves := by
  induction events using List.reverseRecOn with
  | nil => exact ⟨sound_new, [], rfl⟩
  | append_singleton events event ih =>
    obtain ⟨hsound, earlier, hearlier⟩ := ih
    obtain ⟨hnext, hmoves⟩ := step_refines wire kind spec hsound event
    rw [after, Serial.runAll_snoc]
    refine ⟨hnext,
      earlier ++ moves json wire kind spec (after json wire kind spec events) event, ?_⟩
    rw [Exchange.after, Serial.runAll_append]
    rw [Exchange.after] at hearlier
    rw [← hearlier]
    exact hmoves

variable (json) in
theorem after_agrees (events : List LinkEvent) :
    (after json wire kind spec events).exchange.Agrees texts wire spec := by
  obtain ⟨-, moves, hmoves⟩ := after_refines json wire kind spec events
  rw [hmoves]
  exact Exchange.after_agrees wire kind spec moves

end refinement

/-- Nothing is on its way and nothing is left to do: no bytes, no call of a tool, no reply that is
not written, and the server serves. -/
structure Quiet (s : Link V E) : Prop where
  requests : s.requests = []
  responses : s.responses = []
  calls : s.server.calls = []
  responded : ∀ reply ∈ s.server.replies, reply.1 ∈ s.answered.map Prod.fst
  isOpen : s.server.closed = false
  rejections : s.server.rejections = []

theorem Quiet.exchange {json : JsonCodec V} {s : Link V E} (hquiet : Quiet s) (h : Sound json s) :
    s.exchange.Quiet := by
  have hrequests := h.requests
  rw [hquiet.requests] at hrequests
  have hresponses := h.responses
  rw [hquiet.responses] at hresponses
  refine ⟨?_, hquiet.calls, hquiet.responded, ?_, hquiet.isOpen, hquiet.rejections⟩
  · rw [← List.length_map Prod.snd]
    exact hrequests.all_delivered.2
  · rw [← List.length_map Prod.snd]
    exact hresponses.all_delivered.2

end Link

section mcp

variable {V : Type} (json : JsonCodec V) (wire : Wire V) (texts : TemplateText)
  (serverName : JsString) (requestTimeoutMs : Option JsNumber) (spec : McpServerSpec)

/-- In every run, a request that is resolved is resolved with the server's one reply to it: the
reply that its own method and the values that were read of it call for. -/
theorem link_resolves (events : List LinkEvent) (k : Nat) (message : Json) :
    let s := Link.after json wire (Client.session texts serverName requestTimeoutMs) spec events
    s.client.promise k = some (.resolved message) →
      ∃ i request v response w, s.client.sent[k]? = some request ∧
        wire.written request.envelope = some v ∧ s.sent[i]? = some (k, v) ∧
        handleInbound spec (wire.read v) = dispatch spec (.num (requestId k)) request.method
          ((wire.read v).member (js "params")) ∧
        Answers spec (wire.read v) response ∧ s.server.repliesTo i = [response] ∧
        wire.written response.envelope = some w ∧ message = wire.read w := by
  intro s hresolved
  exact (Link.after_agrees json wire (Client.session texts serverName requestTimeoutMs) spec
    events).reply_of_resolved hresolved

/-- Whenever all is quiet, every request that was written is settled. -/
theorem link_settles (events : List LinkEvent) :
    let s := Link.after json wire (Client.session texts serverName requestTimeoutMs) spec events
    s.Quiet → ∀ written ∈ s.sent, (s.client.promise written.1).isSome := by
  intro s hquiet
  have hsound := (Link.after_refines json wire (Client.session texts serverName requestTimeoutMs)
    spec events).1
  exact (Link.after_agrees json wire (Client.session texts serverName requestTimeoutMs) spec
    events).settles (hquiet.exchange hsound)

end mcp

section listing

/-- A client lists the tools of a server that has none. -/
def listing : JsonRpcRequest := makeRequest (requestId 0) (js "tools/list") none

def listed : JsonRpcResponse := .result (.num (requestId 0)) (.ofMembers [("tools", .arr [])])

def listingValue (isRequest : Bool) : Json :=
  if isRequest then listing.envelope else listed.envelope

def listingText (isRequest : Bool) : JsString :=
  Json.stringify (fun q => Number.decimal q.num.toNat) (listingValue isRequest)

theorem listing_ne_listed : listing.envelope ≠ listed.envelope := by
  intro h
  have hmethod := congrArg (fun value => (value.member (js "method")).isSome) h
  have hrequest : (listing.envelope.member (js "method")).isSome = true := by decide
  have hresponse : (listed.envelope.member (js "method")).isSome = false := by decide
  simp only [hrequest, hresponse] at hmethod
  cases hmethod

def listingJson : JsonCodec Bool where
  stringify := listingText
  parse text :=
    if text = listingText true then .ok true
    else if text = listingText false then .ok false
    else .error (js "Unexpected token")
  parse_stringify := by decide +kernel
  stringify_wellFormed b := wellFormed_ascii _ (by cases b <;> decide +kernel)
  stringify_length := by decide +kernel

open Classical in
noncomputable def listingWire : Wire Bool where
  written value :=
    if value = listing.envelope then some true
    else if value = listed.envelope then some false
    else none
  read := listingValue
  keeps_text := by
    intro members v name text _ h hmember
    split at h
    · next heq =>
      obtain rfl := Option.some.inj h
      rw [← hmember, heq]
      rfl
    · split at h
      · next heq =>
        obtain rfl := Option.some.inj h
        rw [← hmember, heq]
        rfl
      · cases h
  keeps_id := by
    intro members v name k _ h hmember
    split at h
    · next heq =>
      obtain rfl := Option.some.inj h
      rw [← hmember, heq]
      rfl
    · split at h
      · next heq =>
        obtain rfl := Option.some.inj h
        rw [← hmember, heq]
        rfl
      · cases h

def listingEvents : List LinkEvent :=
  [.request (js "tools/list") none, .serverReads (frames listingJson [true]).length, .respond 0,
    .clientReads (frames listingJson [false]).length]

theorem listing_written : listingWire.written listing.envelope = some true := if_pos rfl

theorem listed_written : listingWire.written listed.envelope = some false :=
  (if_neg listing_ne_listed.symm).trans (if_pos rfl)

def listingSpec : McpServerSpec := ⟨js "solarcido", js "0.1.0", []⟩

theorem listing_handled : handleInbound listingSpec (listingWire.read true) = .answered listed := by
  rw [handleInbound_request listingWire listingSpec listing_written rfl]
  rfl

theorem frames_all (b : Bool) :
    (frames listingJson [b]).take (frames listingJson [b]).length = frames listingJson [b] :=
  List.take_length

/-- The link when the tools have been listed. -/
theorem listing_run (kind : ClientKind plainText Client.McpClientError) :
    let s := Link.after listingJson listingWire kind listingSpec listingEvents
    s.sent = [(0, true)] ∧ s.requests = [] ∧ s.server = ⟨false, 1, [(0, listed)], [], []⟩ ∧
      s.answered = [(0, false)] ∧ s.responses = [] ∧
      s.client = ((ClientSession.new.request kind (js "tools/list") none none).handleMessage kind
        listed.envelope) := by
  intro s
  let client : ClientSession Client.McpClientError :=
    ClientSession.new.request kind (js "tools/list") none none
  let read : Bool → Transport Bool := fun b => ⟨[], false, [.message b]⟩
  have hread (policy : Policy UInt8 Bool FramingError (Delivery Bool))
      (hpolicy : policy.accept = .message) (b : Bool) :
      onChunkWith listingJson policy .fresh (frames listingJson [b]) = read b := by
    have hframes := onChunkWith_frames listingJson policy .fresh rfl [b] [frames listingJson [b]]
      (List.append_nil _)
    rw [List.foldl_cons, List.foldl_nil] at hframes
    rw [hframes, hpolicy]
    rfl
  have hrequest : Link.step listingJson listingWire kind listingSpec .new
      (.request (js "tools/list") none) =
        ⟨client, .fresh, [(0, true)], frames listingJson [true], .new, .fresh, [], []⟩ := by
    have hwritten : listingWire.written (makeRequest
        (ClientSession.takeId (.new : ClientSession Client.McpClientError)) (js "tools/list")
          none).envelope = some true := listing_written
    simp only [Link.step, Link.request, Link.new, Transport.fresh, Bool.false_eq_true, if_false,
      hwritten]
    rfl
  have hserver : Link.step listingJson listingWire kind listingSpec
      ⟨client, .fresh, [(0, true)], frames listingJson [true], .new, .fresh, [], []⟩
      (.serverReads (frames listingJson [true]).length) =
        ⟨client, .fresh, [(0, true)], [], ⟨false, 1, [(0, listed)], [], []⟩, read true, [],
          []⟩ := by
    have hopen : (Transport.fresh : Transport Bool).closed = false := rfl
    have hchunk : StdioServerTransport.onChunk listingJson .fresh (frames listingJson [true]) =
        read true := hread serverPolicy rfl true
    have hstep : ServerSession.step listingSpec .new (.message (listingWire.read true)) =
        ⟨false, 1, [(0, listed)], [], []⟩ := by
      rw [ServerSession.step, listing_handled]
      rfl
    simp only [Link.step, Link.serverReads, hopen, Bool.false_eq_true, if_false, frames_all, hchunk,
      List.drop_length, ← hstep]
    rfl
  have hrespond : Link.step listingJson listingWire kind listingSpec
      ⟨client, .fresh, [(0, true)], [], ⟨false, 1, [(0, listed)], [], []⟩, read true, [], []⟩
      (.respond 0) =
        ⟨client, .fresh, [(0, true)], [], ⟨false, 1, [(0, listed)], [], []⟩, read true,
          [(0, false)], frames listingJson [false]⟩ := by
    have hopen : (read true).closed = false := rfl
    simp only [Link.step, Link.respond, hopen, Bool.false_eq_true, if_false, Link.exchange,
      Exchange.response, List.map_nil, List.not_mem_nil, List.find?_cons, decide_true,
      listed_written]
    rfl
  have hclient : Link.step listingJson listingWire kind listingSpec
      ⟨client, .fresh, [(0, true)], [], ⟨false, 1, [(0, listed)], [], []⟩, read true,
        [(0, false)], frames listingJson [false]⟩
      (.clientReads (frames listingJson [false]).length) =
        ⟨client.handleMessage kind listed.envelope, read false, [(0, true)], [],
          ⟨false, 1, [(0, listed)], [], []⟩, read true, [(0, false)], []⟩ := by
    have hchunk : StdioTransport.onChunk listingJson .fresh (frames listingJson [false]) =
        read false := hread clientPolicy rfl false
    simp only [Link.step, Link.clientReads, frames_all, hchunk, List.drop_length]
    rfl
  have hrun : s = ⟨client.handleMessage kind listed.envelope, read false, [(0, true)], [],
      ⟨false, 1, [(0, listed)], [], []⟩, read true, [(0, false)], []⟩ := by
    simp only [s, Link.after, listingEvents, Serial.runAll, List.foldl_cons, List.foldl_nil,
      hrequest, hserver, hrespond, hclient]
  rw [hrun]
  exact ⟨rfl, rfl, rfl, rfl, rfl, rfl⟩

theorem listing_resolved (kind : ClientKind plainText Client.McpClientError) :
    (Link.after listingJson listingWire kind listingSpec listingEvents).client.promise 0 =
      some (.resolved listed.envelope) := by
  have hclient := (listing_run kind).2.2.2.2.2
  have hcarries : carriesId 0 listed.envelope = true := by decide
  have hnew : Requests.Table.Consistent (requestKey plainText)
      (ClientSession.new : ClientSession Client.McpClientError).table :=
    Requests.Table.new_consistent
  have hrequested : Requests.Table.Consistent (requestKey plainText)
      (ClientSession.new.request kind (js "tools/list") none none).table :=
    ClientSession.step_consistent kind hnew (.request (js "tools/list") none none)
  rw [hclient, Exchange.handleMessage_promise hrequested _ Nat.one_pos, if_pos hcarries]
  rfl

/-- The reply of the run. -/
theorem listing_resolves :
    let s := Link.after listingJson listingWire (Client.session plainText (js "s") none) listingSpec
      listingEvents
    ∃ i request v response w, s.client.sent[0]? = some request ∧
      listingWire.written request.envelope = some v ∧ s.sent[i]? = some (0, v) ∧
      handleInbound listingSpec (listingWire.read v) = dispatch listingSpec (.num (requestId 0))
        request.method ((listingWire.read v).member (js "params")) ∧
      Answers listingSpec (listingWire.read v) response ∧ s.server.repliesTo i = [response] ∧
      listingWire.written response.envelope = some w ∧ listed.envelope = listingWire.read w :=
  link_resolves listingJson listingWire plainText (js "s") none listingSpec listingEvents 0
    listed.envelope (listing_resolved _)

/-- All is quiet after the run, and its request is settled. -/
theorem listing_settles :
    let s := Link.after listingJson listingWire (Client.session plainText (js "s") none) listingSpec
      listingEvents
    s.Quiet ∧ ∀ written ∈ s.sent, (s.client.promise written.1).isSome := by
  intro s
  obtain ⟨-, hrequests, hserver, hanswered, hresponses, -⟩ :=
    listing_run (Client.session plainText (js "s") none)
  have hquiet : s.Quiet := by
    refine ⟨hrequests, hresponses, ?_, ?_, ?_, ?_⟩
    · rw [hserver]
    · rw [hserver, hanswered]
      simp
    · rw [hserver]
    · rw [hserver]
  exact ⟨hquiet, link_settles listingJson listingWire plainText (js "s") none listingSpec
    listingEvents hquiet⟩

end listing

end Solarcido.Mcp
