import Solarcido.Rpc.Clients

namespace Solarcido.Rpc

open Text Requests

/-- A response is a message without a method. -/
def isResponse (message : Json) : Bool := !hasMethod message

namespace ClientSession

section runs

variable {texts : TemplateText} {E : Type} (kind : ClientKind texts E)

/-- An event of a session as its table sees it. -/
def tableEvent : ClientEvent → Event Json (Failure E) Thrown
  | .request method _ sendThrows =>
    .issue (timerError kind method) (sendError kind method) (sendThrows.map .thrown)
  | .message message => .message message
  | .timeout k => .timeout k
  | .sendFailed k error => .sendFailed k error
  | .sent k => .sent k
  | .close => .close (.client kind.closed)

theorem tableEvent_message {event : ClientEvent} {message : Json}
    (h : tableEvent kind event = .message message) : event = .message message := by
  cases event with
  | message message' => rw [Event.message.inj h]
  | request method params sendThrows => cases h
  | timeout k => cases h
  | sendFailed k error => cases h
  | sent k => cases h
  | close => cases h

theorem step_table (s : ClientSession E) (event : ClientEvent) :
    (step kind s event).table =
      Table.step (requestKey texts) kind.lookupKey s.table (tableEvent kind event) := by
  cases event with
  | request method params sendThrows => rfl
  | message message => rfl
  | timeout k => rfl
  | sendFailed k error => rfl
  | sent k => rfl
  | close => rfl

theorem after_table (events : List ClientEvent) :
    (after kind events).table =
      Table.after (requestKey texts) kind.lookupKey (events.map (tableEvent kind)) :=
  Serial.view_runAll (step kind) ClientSession.table (tableEvent kind) (step_table kind) new events

theorem step_consistent {s : ClientSession E} (h : Table.Consistent (requestKey texts) s.table)
    (event : ClientEvent) : Table.Consistent (requestKey texts) (step kind s event).table := by
  rw [step_table]
  exact Table.step_consistent (requestKey_injective texts) h _

theorem step_settled {s : ClientSession E} (h : Table.Consistent (requestKey texts) s.table)
    (event : ClientEvent) {k : Nat} {o : Outcome Json (Failure E)} (hpromise : s.promise k = some o) :
    (step kind s event).promise k = some o := by
  rw [promise, step_table]
  exact Table.step_settled h _ hpromise

theorem resolved_by_message {s : ClientSession E} {event : ClientEvent} {k : Nat} {message : Json}
    (h : (step kind s event).promise k = some (.resolved message)) :
    s.promise k = some (.resolved message) ∨ event = .message message := by
  rw [promise, step_table] at h
  obtain h | h := Table.resolved_by_message h
  · exact Or.inl h
  · exact Or.inr (tableEvent_message kind h)

theorem step_issued (s : ClientSession E) (event : ClientEvent) :
    (step kind s event).table.issued = s.table.issued + if isRequest event then 1 else 0 := by
  rw [step_table, Table.step_issued]
  cases event with
  | request method params sendThrows => rfl
  | message message => rfl
  | timeout k => rfl
  | sendFailed k error => rfl
  | sent k => rfl
  | close => rfl

/-- A request is the last one sent; nothing else sends any. -/
theorem step_sent (s : ClientSession E) (event : ClientEvent) :
    (isRequest event = false ∧ (step kind s event).sent = s.sent) ∨
      ∃ method params sendThrows, event = .request method params sendThrows ∧
        (step kind s event).sent = s.sent ++ [makeRequest s.takeId method params] := by
  cases event with
  | request method params sendThrows => exact Or.inr ⟨method, params, sendThrows, rfl, rfl⟩
  | message message => exact Or.inl ⟨rfl, rfl⟩
  | timeout k => exact Or.inl ⟨rfl, rfl⟩
  | sendFailed k error => exact Or.inl ⟨rfl, rfl⟩
  | sent k => exact Or.inl ⟨rfl, rfl⟩
  | close => exact Or.inl ⟨rfl, rfl⟩

theorem issues_tableEvent (events : List ClientEvent) :
    Table.issues (events.map (tableEvent kind)) = requests events := by
  rw [Table.issues, List.countP_map, requests]
  congr 1
  funext event
  cases event with
  | request method params sendThrows => rfl
  | message message => rfl
  | timeout k => rfl
  | sendFailed k error => rfl
  | sent k => rfl
  | close => rfl

theorem possible_tableEvent (s : ClientSession E) (event : ClientEvent) :
    Possible s event ↔ Table.Possible s.table (tableEvent kind event) := by
  cases event with
  | request method params sendThrows => rfl
  | message message => rfl
  | timeout k => rfl
  | sendFailed k error => rfl
  | sent k => rfl
  | close => rfl

/-- The messages that come with the id of a request that is not settled are of one kind. -/
def OnlyFrom (responds : Json → Bool) (s : ClientSession E) (event : ClientEvent) : Prop :=
  ∀ message k, event = .message message → k < s.table.issued → s.promise k = none →
    carriesId k message = true → responds message = true

theorem onlyFrom_tableEvent (responds : Json → Bool) (s : ClientSession E) (event : ClientEvent) :
    OnlyFrom responds s event ↔
      Table.OnlyGood (requestKey texts) kind.lookupKey responds s.table (tableEvent kind event) := by
  constructor
  · intro h message k hevent hk hnone hfind
    exact h message k (tableEvent_message kind hevent) hk hnone ((kind.finds message k).mp hfind)
  · rintro h message k rfl hk hnone hid
    exact h message k rfl hk hnone ((kind.finds message k).mpr hid)

/-- What an event settles a request with that was made before, if only messages of one kind do. -/
def settles (responds : Json → Bool) (method : JsString) (k : Nat) :
    ClientEvent → Option (Outcome Json (Failure E))
  | .message message =>
    if responds message ∧ carriesId k message then some (.resolved message) else none
  | .timeout j => if j = k then (timerError kind method).map .rejected else none
  | .sendFailed j error => if j = k then some (.rejected (sendError kind method error)) else none
  | .close => some (.rejected (.client kind.closed))
  | _ => none

/-- The error of a send that throws, else the first settlement among the events that follow. -/
def firstSettlement (responds : Json → Bool) (method : JsString) (sendThrows : Option Thrown)
    (k : Nat) (rest : List ClientEvent) : Option (Outcome Json (Failure E)) :=
  ((sendThrows.map .thrown).map .rejected).or (rest.findSome? (settles kind responds method k))

theorem settles_tableEvent (responds : Json → Bool) (method : JsString) (k : Nat)
    (event : ClientEvent) :
    Table.settles (requestKey texts) kind.lookupKey responds (timerError kind method)
        (sendError kind method) k (tableEvent kind event) =
      settles kind responds method k event := by
  cases event with
  | request method' params sendThrows => rfl
  | message message => simp only [tableEvent, Table.settles, settles, kind.finds]
  | timeout j => rfl
  | sendFailed j error => rfl
  | sent j => rfl
  | close => rfl

/-- Where only messages of one kind come for unsettled requests, a request has its first
settlement. -/
theorem promise_eq {responds : Json → Bool} {before rest : List ClientEvent} {method : JsString}
    {params : Option Json} {sendThrows : Option Thrown}
    (hpossible : Serial.Meets (step kind) Possible new
      (before ++ .request method params sendThrows :: rest))
    (honly : Serial.Meets (step kind) (OnlyFrom responds) new
      (before ++ .request method params sendThrows :: rest)) :
    (after kind (before ++ .request method params sendThrows :: rest)).promise (requests before) =
      firstSettlement kind responds method sendThrows (requests before) rest := by
  rw [Serial.meets_translate (step kind) ClientSession.table (tableEvent kind) (step_table kind)
    (possible_tableEvent kind)] at hpossible
  rw [Serial.meets_translate (step kind) ClientSession.table (tableEvent kind) (step_table kind)
    (onlyFrom_tableEvent kind responds)] at honly
  rw [List.map_append, List.map_cons] at hpossible honly
  have htable := Table.promise_eq (requestKey_injective texts) _ _ _ _ _ hpossible honly
  rw [issues_tableEvent] at htable
  rw [promise, after_table, List.map_append, List.map_cons, firstSettlement]
  rw [tableEvent, htable, List.findSome?_map]
  congr 2
  funext event
  exact settles_tableEvent kind responds method (requests before) event

theorem promise_stays (events more : List ClientEvent) {k : Nat}
    {o : Outcome Json (Failure E)} (h : (after kind events).promise k = some o) :
    (after kind (events ++ more)).promise k = some o := by
  rw [promise, after_table] at h ⊢
  rw [List.map_append]
  exact Table.promise_stays (requestKey_injective texts) _ _ h

theorem after_issued (events : List ClientEvent) :
    (after kind events).table.issued = requests events := by
  rw [after_table, Table.after_issued, issues_tableEvent]

/-- The requests of a session are numbered one after the other. -/
theorem sent_ids (events : List ClientEvent) :
    (after kind events).sent.map JsonRpcRequest.id =
      (List.range (requests events)).map requestId := by
  rw [← after_issued kind]
  apply Serial.runAll_invariant (step kind) new fun s : ClientSession E =>
    s.sent.map JsonRpcRequest.id = (List.range s.table.issued).map requestId
  · rfl
  · intro s event h
    rw [step_issued]
    obtain ⟨hother, hsent⟩ | ⟨method, params, sendThrows, rfl, hsent⟩ := step_sent kind s event
    · rw [hsent, hother, h]
      rfl
    · rw [hsent, List.map_append, h, isRequest, if_pos rfl, List.range_succ, List.map_append]
      rfl

theorem close_settles (events : List ClientEvent) :
    (after kind (events ++ [.close])).table.pending = .empty ∧
      ∀ k, k < requests events → ((after kind (events ++ [.close])).promise k).isSome := by
  rw [← issues_tableEvent kind]
  simp only [promise]
  rw [after_table, List.map_append]
  exact Table.close_settles (requestKey_injective texts) _ _

/-- Each request is settled by a response that carries its id, by its own timeout or send failure,
or by the close, whichever comes first. -/
def SettledByResponses (events : List ClientEvent) : Prop :=
  ∀ before method params sendThrows rest,
    events = before ++ .request method params sendThrows :: rest →
      (after kind events).promise (requests before) =
        firstSettlement kind isResponse method sendThrows (requests before) rest

theorem request_of_isRequest {event : ClientEvent} (h : isRequest event = true) :
    ∃ method params sendThrows, event = .request method params sendThrows := by
  cases event with
  | request method params sendThrows => exact ⟨method, params, sendThrows, rfl⟩
  | message message => cases h
  | timeout j => cases h
  | sendFailed j error => cases h
  | sent j => cases h
  | close => cases h

/-- Every request made has its place among the events. -/
theorem request_split (events : List ClientEvent) {k : Nat} (hk : k < requests events) :
    ∃ before method params sendThrows rest,
      events = before ++ .request method params sendThrows :: rest ∧ requests before = k := by
  induction events using List.reverseRecOn with
  | nil => simp [requests] at hk
  | append_singleton events event ih =>
    rw [requests, List.countP_append, List.countP_singleton, ← requests] at hk
    by_cases hlt : k < requests events
    · obtain ⟨before, method, params, sendThrows, rest, rfl, hcount⟩ := ih hlt
      exact ⟨before, method, params, sendThrows, rest ++ [event], by simp, hcount⟩
    · have hrequest : isRequest event = true := by
        by_contra hother
        rw [if_neg hother] at hk
        exact hlt hk
      rw [if_pos hrequest] at hk
      obtain ⟨method, params, sendThrows, rfl⟩ := request_of_isRequest hrequest
      exact ⟨events, method, params, sendThrows, [], rfl, by omega⟩

/-- Only a response is a settlement by a message. -/
theorem responds_of_firstSettlement {responds : Json → Bool} {method : JsString}
    {sendThrows : Option Thrown} {k : Nat} {rest : List ClientEvent} {message : Json}
    (h : firstSettlement kind responds method sendThrows k rest = some (.resolved message)) :
    responds message = true := by
  cases sendThrows with
  | some error =>
    rw [firstSettlement] at h
    cases h
  | none =>
    obtain ⟨event, -, hevent⟩ := List.exists_of_findSome?_eq_some h
    cases event with
    | message message' =>
      rw [settles] at hevent
      split at hevent
      · next hboth =>
        obtain rfl := Outcome.resolved.inj (Option.some.inj hevent)
        exact hboth.1
      · cases hevent
    | timeout j =>
      rw [settles] at hevent
      split at hevent
      · obtain ⟨error, -, herror⟩ := Option.map_eq_some_iff.mp hevent
        cases herror
      · cases hevent
    | sendFailed j error =>
      rw [settles] at hevent
      split at hevent
      · cases hevent
      · cases hevent
    | request method' params sendThrows => cases hevent
    | sent j => cases hevent
    | close => cases hevent

theorem onlyFrom_of_settledByResponses {events : List ClientEvent}
    (h : SettledByResponses kind events) :
    Serial.Meets (step kind) (OnlyFrom isResponse) new events := by
  rw [Serial.meets_translate (step kind) ClientSession.table (tableEvent kind) (step_table kind)
    (onlyFrom_tableEvent kind isResponse)]
  apply Table.onlyGood_of_resolved (requestKey_injective texts)
  intro k message hresolved
  rw [← after_table] at hresolved
  by_cases hk : k < requests events
  · obtain ⟨before, method, params, sendThrows, rest, hsplit, rfl⟩ := request_split events hk
    have hfirst := h before method params sendThrows rest hsplit
    rw [promise, hresolved] at hfirst
    exact responds_of_firstSettlement kind hfirst.symm
  · have hconsistent : Table.Consistent (requestKey texts) (after kind events).table := by
      rw [after_table]
      exact Table.after_consistent (requestKey_injective texts) _
    rw [← after_issued kind] at hk
    rw [hconsistent.unissued k (by omega)] at hresolved
    cases hresolved

theorem settledByResponses_iff {events : List ClientEvent}
    (hpossible : Serial.Meets (step kind) Possible new events) :
    SettledByResponses kind events ↔
      Serial.Meets (step kind) (OnlyFrom isResponse) new events := by
  constructor
  · exact onlyFrom_of_settledByResponses kind
  · intro honly before method params sendThrows rest hsplit
    subst hsplit
    exact promise_eq kind hpossible honly

end runs

end ClientSession

open ClientSession

/-- In both clients the requests are settled by responses in just the runs in which no message with
a method comes with the id of an unsettled request. -/
theorem settled_by_responses_iff (texts : TemplateText) :
    (∀ (serverName : JsString) (requestTimeoutMs : Option JsNumber) (events : List ClientEvent),
      Serial.Meets (step (Mcp.Client.session texts serverName requestTimeoutMs)) Possible new
          events →
        (SettledByResponses (Mcp.Client.session texts serverName requestTimeoutMs) events ↔
          Serial.Meets (step (Mcp.Client.session texts serverName requestTimeoutMs))
            (OnlyFrom isResponse) new events)) ∧
    ∀ (requestTimeoutMs : Option JsNumber) (events : List ClientEvent),
      Serial.Meets (step (Lsp.session texts requestTimeoutMs)) Possible new events →
        (SettledByResponses (Lsp.session texts requestTimeoutMs) events ↔
          Serial.Meets (step (Lsp.session texts requestTimeoutMs)) (OnlyFrom isResponse) new
            events) := by
  constructor
  · intro serverName requestTimeoutMs events hpossible
    exact settledByResponses_iff _ hpossible
  · intro requestTimeoutMs events hpossible
    exact settledByResponses_iff _ hpossible

/-- A peer asks for the roots under the number of the client's first request. -/
def collidingRequest : Json :=
  .ofMembers [("jsonrpc", .str (js "2.0")), ("id", .num (requestId 0)),
    ("method", .str (js "roots/list"))]

def collision : List ClientEvent :=
  [.request (js "initialize") none none, .message collidingRequest]

theorem collision_possible {E : Type} (kind : ClientKind plainText E) :
    Serial.Meets (step kind) Possible new collision :=
  Serial.meets_cons _ trivial (Serial.meets_cons _ trivial (Serial.meets_nil _))

theorem collision_not_settledByResponses {E : Type} (kind : ClientKind plainText E) :
    ¬ SettledByResponses kind collision := by
  intro h
  have hrequest : isResponse collidingRequest = false := by decide
  have honly := onlyFrom_of_settledByResponses kind h [_] _ [] rfl
  have hresponse := honly collidingRequest 0 rfl Nat.one_pos rfl (by decide)
  rw [hrequest] at hresponse
  cases hresponse

theorem settled_by_response : SettledByResponses (Lsp.session plainText none)
    [.request (js "initialize") none none, .message (.ofMembers [("id", .num (requestId 0))])] := by
  apply ((settled_by_responses_iff plainText).2 none _ ?_).mpr
  · apply Serial.meets_cons
    · intro message k hevent
      cases hevent
    · apply Serial.meets_cons
      · intro message k hevent _ _ _
        obtain rfl := ClientEvent.message.inj hevent
        decide
      · exact Serial.meets_nil _
  · exact Serial.meets_cons _ trivial (Serial.meets_cons _ trivial (Serial.meets_nil _))

/-- A request of the peer settles the client's own in both clients. -/
theorem request_settles_request :
    (Serial.Meets (step (Mcp.Client.session plainText (js "s") none)) Possible new collision ∧
      ¬ SettledByResponses (Mcp.Client.session plainText (js "s") none) collision) ∧
    Serial.Meets (step (Lsp.session plainText none)) Possible new collision ∧
      ¬ SettledByResponses (Lsp.session plainText none) collision :=
  ⟨⟨collision_possible _, collision_not_settledByResponses _⟩, collision_possible _,
    collision_not_settledByResponses _⟩

/-- Each request of an MCP client session is settled once, by the first message with its id, its
timeout, its send failure or the close; the ids are all different; nothing is pending and nothing
unsettled when the close returns. -/
theorem mcp_requests_settled (texts : TemplateText) (serverName : JsString)
    (requestTimeoutMs : Option JsNumber) (events : List ClientEvent)
    (hpossible : Serial.Meets (step (Mcp.Client.session texts serverName requestTimeoutMs)) Possible
      new events) :
    let session := Mcp.Client.session texts serverName requestTimeoutMs
    (∀ before method params sendThrows rest,
      events = before ++ .request method params sendThrows :: rest →
        (after session events).promise (requests before) =
          firstSettlement session (fun _ => true) method sendThrows (requests before) rest) ∧
    (∀ more k o, (after session events).promise k = some o →
      (after session (events ++ more)).promise k = some o) ∧
    (after session events).sent.map JsonRpcRequest.id =
      (List.range (requests events)).map requestId ∧
    ((after session events).sent.map JsonRpcRequest.id).Nodup ∧
    (after session (events ++ [.close])).table.pending = .empty ∧
    ∀ k, k < requests events → ((after session (events ++ [.close])).promise k).isSome := by
  intro session
  have honly : Serial.Meets (step session) (OnlyFrom fun _ => true) new events := by
    intro before event rest _ message k _ _ _ _
    rfl
  refine ⟨?_, ?_, sent_ids session events, ?_, close_settles session events⟩
  · intro before method params sendThrows rest hsplit
    subst hsplit
    exact promise_eq session hpossible honly
  · intro more k o h
    exact promise_stays session events more h
  · rw [sent_ids]
    exact List.nodup_range.map requestId_injective

/-- A reply that comes after the timeout changes nothing. -/
theorem mcp_late_reply :
    let session := Mcp.Client.session plainText (js "s") none
    let late : List ClientEvent := [.request (js "tools/list") none none, .timeout 0,
      .message (.ofMembers [("id", .num (requestId 0))])]
    (after session late).promise 0 =
      some (.rejected (.client (Mcp.Client.timedOut (js "s") (js "tools/list")))) := by
  intro session late
  have htimer : timerError session (js "tools/list") =
      some (.client (Mcp.Client.timedOut (js "s") (js "tools/list"))) := by
    rw [timerError, if_pos (by decide)]
    rfl
  have hpossible : Serial.Meets (step session) Possible new late := by
    refine Serial.meets_cons _ trivial (Serial.meets_cons _ ?_ (Serial.meets_cons _ trivial
      (Serial.meets_nil _)))
    refine ⟨.client (Mcp.Client.timedOut (js "s") (js "tools/list")), ?_⟩
    simp only [step, request, Table.issue, htimer]
    exact List.mem_cons_self
  have hfirst := (mcp_requests_settled plainText (js "s") none late hpossible).1 [] _ _ _ _ rfl
  have hcount : requests [] = 0 := rfl
  rw [firstSettlement, List.findSome?_cons, settles, hcount, if_pos rfl, htimer] at hfirst
  exact hfirst

end Solarcido.Rpc
