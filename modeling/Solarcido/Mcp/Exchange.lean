import Solarcido.Mcp.Answers
import Solarcido.Rpc.Settlement

namespace Solarcido

open Text Requests Rpc

/-- The message of a request, which has `params` only when they are defined. -/
def Rpc.JsonRpcRequest.envelope (request : JsonRpcRequest) : Json :=
  .ofMembers ([("jsonrpc", .str (js "2.0")), ("id", .num request.id),
    ("method", .str request.method)] ++ (request.params.map fun p => ("params", p)).toList)

def Mcp.Server.JsonRpcResponse.envelope : Mcp.Server.JsonRpcResponse → Json
  | .result id value => .ofMembers [("jsonrpc", .str (js "2.0")), ("id", id), ("result", value)]
  | .error id code message =>
    .ofMembers [("jsonrpc", .str (js "2.0")), ("id", id),
      ("error", .ofMembers [("code", .num (.ofInt code)), ("message", .str message)])]

namespace Mcp

open Server

/-- What two sides write for their messages and what the other side reads. An object is read with
the texts and the ids that it was written with, if it was written at all. -/
structure Wire (V : Type) where
  written : Json → Option V
  read : V → Json
  keeps_text : ∀ members v name text, (members.map Prod.fst).Nodup →
    written (.obj members) = some v → (Json.obj members).member name = some (.str text) →
      (read v).member name = some (.str text)
  keeps_id : ∀ members v name k, (members.map Prod.fst).Nodup →
    written (.obj members) = some v → (Json.obj members).member name = some (.num (requestId k)) →
      (read v).member name = some (.num (requestId k))

section wire

variable {V : Type} (wire : Wire V)

theorem read_request_id {request : JsonRpcRequest} {v : V} {k : Nat}
    (h : wire.written request.envelope = some v) (hid : request.id = requestId k) :
    (wire.read v).member (js "id") = some (.num (requestId k)) := by
  obtain ⟨id, method, params⟩ := request
  obtain rfl : id = requestId k := hid
  cases params with
  | none =>
    refine wire.keeps_id _ v _ k ?_ h ?_
    · simp only [List.map_append, List.map_cons, List.map_nil, Option.map_none, Option.toList_none]
      decide
    · simp only [List.cons_append, List.map_cons]
      rw [Json.member_cons_of_ne (by decide), Json.member_cons_self]
  | some params =>
    refine wire.keeps_id _ v _ k ?_ h ?_
    · simp only [List.map_append, List.map_cons, List.map_nil, Option.map_some, Option.toList_some]
      decide
    · simp only [List.cons_append, List.map_cons]
      rw [Json.member_cons_of_ne (by decide), Json.member_cons_self]

theorem read_response_id {response : JsonRpcResponse} {w : V} {k : Nat}
    (h : wire.written response.envelope = some w) (hid : response.id = .num (requestId k)) :
    (wire.read w).member (js "id") = some (.num (requestId k)) := by
  cases response with
  | result id value =>
    obtain rfl : id = .num (requestId k) := hid
    refine wire.keeps_id _ w _ k ?_ h ?_
    · simp only [List.map_cons, List.map_nil]
      decide
    · simp only [List.map_cons]
      rw [Json.member_cons_of_ne (by decide), Json.member_cons_self]
  | error id code message =>
    obtain rfl : id = .num (requestId k) := hid
    refine wire.keeps_id _ w _ k ?_ h ?_
    · simp only [List.map_cons, List.map_nil]
      decide
    · simp only [List.map_cons]
      rw [Json.member_cons_of_ne (by decide), Json.member_cons_self]

theorem read_request_text {request : JsonRpcRequest} {v : V}
    (h : wire.written request.envelope = some v) :
    (wire.read v).member (js "jsonrpc") = some (.str (js "2.0")) ∧
      (wire.read v).member (js "method") = some (.str request.method) := by
  obtain ⟨id, method, params⟩ := request
  cases params with
  | none =>
    refine ⟨wire.keeps_text _ v _ _ ?_ h ?_, wire.keeps_text _ v _ _ ?_ h ?_⟩
    all_goals simp only [List.map_append, List.cons_append, List.map_cons, List.map_nil,
      Option.map_none, Option.toList_none]
    · decide
    · rw [Json.member_cons_self]
    · decide
    · rw [Json.member_cons_of_ne (by decide), Json.member_cons_of_ne (by decide),
        Json.member_cons_self]
  | some params =>
    refine ⟨wire.keeps_text _ v _ _ ?_ h ?_, wire.keeps_text _ v _ _ ?_ h ?_⟩
    all_goals simp only [List.map_append, List.cons_append, List.map_cons, List.map_nil,
      Option.map_some, Option.toList_some]
    · decide
    · rw [Json.member_cons_self]
    · decide
    · rw [Json.member_cons_of_ne (by decide), Json.member_cons_of_ne (by decide),
        Json.member_cons_self]

/-- The server handles what it reads of a request as a request for its method. -/
theorem handleInbound_request (spec : McpServerSpec) {request : JsonRpcRequest} {v : V} {k : Nat}
    (h : wire.written request.envelope = some v) (hid : request.id = requestId k) :
    handleInbound spec (wire.read v) = dispatch spec (.num (requestId k)) request.method
      ((wire.read v).member (js "params")) := by
  have hmember := read_request_id wire h hid
  obtain ⟨hjsonrpc, hmethod⟩ := read_request_text wire h
  cases hread : wire.read v with
  | obj members =>
    rw [hread] at hmember hjsonrpc hmethod
    simp only [handleInbound, hmember, hjsonrpc, hmethod, if_true]
  | null =>
    rw [hread] at hmember
    cases hmember
  | bool b =>
    rw [hread] at hmember
    cases hmember
  | num n =>
    rw [hread] at hmember
    cases hmember
  | str text =>
    rw [hread] at hmember
    cases hmember
  | arr items =>
    rw [hread] at hmember
    cases hmember

end wire

/-- A client session and a server session that exchange messages. Of the requests that were
written, each with its number, the server has received so many; of the replies that were written,
each with the delivery it is for, the client has taken so many. -/
structure Exchange (V E : Type) where
  client : ClientSession E
  hungUp : Bool
  sent : List (Nat × V)
  received : Nat
  server : ServerSession
  answered : List (Nat × V)
  taken : Nat

/-- What happens in an exchange. The reply to a delivery is written at any time after the session
has handed it over. -/
inductive ExchangeEvent where
  | request (method : JsString) (params : Option Json)
  | timeout (k : Nat)
  | sendFailed (k : Nat) (error : Thrown)
  | sent (k : Nat)
  | close
  | receive
  | toolDone (i : Nat) (outcome : ToolOutcome)
  | respond (i : Nat)
  | stop
  | take

namespace Exchange

open ServerSession (Answering answering_new)

variable {texts : TemplateText} {V E : Type} (wire : Wire V) (kind : ClientKind texts E)
  (spec : McpServerSpec)

def new : Exchange V E := ⟨.new, false, [], 0, .new, [], 0⟩

/-- `request` and the `send` of its envelope, which writes nothing on a closed transport or where
the envelope cannot be written. -/
def request (method : JsString) (params : Option Json) (x : Exchange V E) : Exchange V E :=
  let written := if x.hungUp then none
    else wire.written (makeRequest x.client.takeId method params).envelope
  { x with
    client := x.client.request kind method params none
    sent := x.sent ++ (written.map fun v => (x.client.table.issued, v)).toList }

def close (x : Exchange V E) : Exchange V E :=
  { x with client := x.client.close kind, hungUp := true }

def receive (x : Exchange V E) : Exchange V E :=
  match x.sent[x.received]? with
  | none => x
  | some (_, v) =>
    { x with received := x.received + 1, server := x.server.step spec (.message (wire.read v)) }

/-- What the server writes for the reply to a delivery, if it has it and has not written it. -/
def response (i : Nat) (x : Exchange V E) : Option V :=
  if i ∈ x.answered.map Prod.fst then none
  else
    match x.server.replies.find? fun reply => reply.1 = i with
    | none => none
    | some (_, response) => wire.written response.envelope

def respond (i : Nat) (x : Exchange V E) : Exchange V E :=
  { x with answered := x.answered ++ ((x.response wire i).map fun w => (i, w)).toList }

def take (x : Exchange V E) : Exchange V E :=
  match x.answered[x.taken]? with
  | none => x
  | some (_, w) =>
    { x with taken := x.taken + 1, client := x.client.handleMessage kind (wire.read w) }

def step (x : Exchange V E) : ExchangeEvent → Exchange V E
  | .request method params => x.request wire kind method params
  | .timeout k => { x with client := x.client.timeout texts k }
  | .sendFailed k error => { x with client := x.client.sendFailed texts k error }
  | .sent k => { x with client := x.client.endSend k }
  | .close => x.close kind
  | .receive => x.receive wire spec
  | .toolDone i outcome => { x with server := x.server.toolDone i outcome }
  | .respond i => x.respond wire i
  | .stop => { x with server := x.server.step spec .close }
  | .take => x.take wire kind

def after (events : List ExchangeEvent) : Exchange V E :=
  Serial.runAll (step wire kind spec) new events

/-- What the server has been handed. -/
def values (x : Exchange V E) : List Json := (x.sent.take x.received).map fun s => wire.read s.2

variable (texts) in
/-- What holds between the two sides and what is on the way between them: requests and replies are
written once each, a request is resolved with the reply to what was written for it, and no reply
that was taken leaves its request unsettled. -/
structure Agrees (x : Exchange V E) : Prop where
  consistent : Table.Consistent (requestKey texts) x.client.table
  ids : x.client.sent.map JsonRpcRequest.id = (List.range x.client.table.issued).map requestId
  sent : ∀ s ∈ x.sent, ∃ request, x.client.sent[s.1]? = some request ∧
    wire.written request.envelope = some s.2
  sentOnce : (x.sent.map Prod.fst).Nodup
  received : x.received ≤ x.sent.length
  serves : Answering spec (x.values wire) x.server
  answered : ∀ a ∈ x.answered, ∃ response, (a.1, response) ∈ x.server.replies ∧
    wire.written response.envelope = some a.2
  answeredOnce : (x.answered.map Prod.fst).Nodup
  taken : x.taken ≤ x.answered.length
  resolved : ∀ k message, x.client.promise k = some (.resolved message) →
    ∃ i v w, x.sent[i]? = some (k, v) ∧ (i, w) ∈ x.answered ∧ message = wire.read w
  settled : ∀ i v w k, (i, w) ∈ x.answered.take x.taken → x.sent[i]? = some (k, v) →
    (x.client.promise k).isSome

section agreement

variable {wire kind spec} {x : Exchange V E}

theorem agrees_new : Agrees texts wire spec (new : Exchange V E) := by
  refine ⟨Table.new_consistent, rfl, ?_, List.nodup_nil, Nat.le_refl _, answering_new, ?_,
    List.nodup_nil, Nat.le_refl _, ?_, ?_⟩
  · intro s hs
    cases hs
  · intro a ha
    cases ha
  · intro k message h
    cases h
  · intro i v w k hw
    cases hw

theorem Agrees.id_of_sent (h : Agrees texts wire spec x) {k : Nat}
    {request : JsonRpcRequest} (hrequest : x.client.sent[k]? = some request) :
    k < x.client.table.issued ∧ request.id = requestId k := by
  have hids := congrArg (fun l => l[k]?) h.ids
  simp only [List.getElem?_map, hrequest, Option.map_some] at hids
  obtain ⟨j, hj, hid⟩ := Option.map_eq_some_iff.mp hids.symm
  obtain ⟨hlt, hjk⟩ := List.getElem?_eq_some_iff.mp hj
  rw [List.length_range] at hlt
  rw [List.getElem_range] at hjk
  subst hjk
  exact ⟨hlt, hid.symm⟩

/-- What is written for a delivery is a reply to the request that was delivered. -/
theorem Agrees.request_of_answered (h : Agrees texts wire spec x) {i : Nat} {w : V}
    (hw : (i, w) ∈ x.answered) :
    ∃ k v response, x.sent[i]? = some (k, v) ∧ k < x.client.table.issued ∧
      (i, response) ∈ x.server.replies ∧ wire.written response.envelope = some w ∧
      Answers spec (wire.read v) response ∧
      (wire.read w).member (js "id") = some (.num (requestId k)) := by
  obtain ⟨response, hreply, hwritten⟩ := h.answered _ hw
  obtain ⟨value, hvalue, hanswers⟩ := h.serves.replies _ hreply
  rw [values, List.getElem?_map] at hvalue
  obtain ⟨⟨k, v⟩, hsent, rfl⟩ := Option.map_eq_some_iff.mp hvalue
  have hsent : x.sent[i]? = some (k, v) := by
    rw [List.getElem?_take] at hsent
    split at hsent
    · exact hsent
    · cases hsent
  obtain ⟨request, hrequest, hv⟩ := h.sent (k, v) (List.mem_of_getElem? hsent)
  obtain ⟨hk, hid⟩ := h.id_of_sent hrequest
  have hanswer := hanswers.id_eq (read_request_id wire hv hid)
  exact ⟨k, v, response, hsent, hk, hreply, hwritten, hanswers,
    read_response_id wire hwritten hanswer⟩

variable (kind) in
/-- An event of the client that is neither a request nor a message. -/
theorem Agrees.client (h : Agrees texts wire spec x) (event : ClientEvent)
    (hrequest : ClientSession.isRequest event = false)
    (hmessage : ∀ message, event ≠ .message message) (hungUp : Bool) :
    Agrees texts wire spec
      { x with client := x.client.step kind event, hungUp := hungUp } := by
  have hsent : (x.client.step kind event).sent = x.client.sent := by
    obtain ⟨-, hsame⟩ | ⟨method, params, sendThrows, rfl, -⟩ :=
      ClientSession.step_sent kind x.client event
    · exact hsame
    · cases hrequest
  have hissued : (x.client.step kind event).table.issued = x.client.table.issued := by
    rw [ClientSession.step_issued, hrequest]
    rfl
  refine ⟨ClientSession.step_consistent kind h.consistent event, ?_, ?_, h.sentOnce, h.received,
    h.serves, h.answered, h.answeredOnce, h.taken, ?_, ?_⟩
  · simp only [hsent, hissued]
    exact h.ids
  · simp only [hsent]
    exact h.sent
  · intro k message hresolved
    obtain hbefore | hnow := ClientSession.resolved_by_message kind hresolved
    · exact h.resolved k message hbefore
    · exact absurd hnow (hmessage message)
  · intro i v w k hw hv
    obtain ⟨o, ho⟩ := Option.isSome_iff_exists.mp (h.settled i v w k hw hv)
    rw [ClientSession.step_settled kind h.consistent event ho]
    rfl

theorem Agrees.request (h : Agrees texts wire spec x) (method : JsString) (params : Option Json) :
    Agrees texts wire spec (x.request wire kind method params) := by
  let written : Option (Nat × V) := (if x.hungUp then none
    else wire.written (makeRequest x.client.takeId method params).envelope).map fun v =>
      (x.client.table.issued, v)
  have hlength : x.client.sent.length = x.client.table.issued := by
    simpa using congrArg List.length h.ids
  have hwritten : ∀ s ∈ written.toList, s.1 = x.client.table.issued ∧
      wire.written (makeRequest x.client.takeId method params).envelope = some s.2 := by
    intro s hs
    obtain ⟨v, hv, rfl⟩ := Option.map_eq_some_iff.mp (Option.mem_toList.mp hs)
    split at hv
    · cases hv
    · exact ⟨rfl, hv⟩
  refine ⟨ClientSession.step_consistent kind h.consistent (.request method params none), ?_, ?_, ?_,
    ?_, ?_, h.answered, h.answeredOnce, h.taken, ?_, ?_⟩
  · change (x.client.sent ++ [makeRequest x.client.takeId method params]).map JsonRpcRequest.id =
      (List.range (x.client.table.issued + 1)).map requestId
    rw [List.map_append, h.ids, List.range_succ, List.map_append]
    rfl
  · change ∀ s ∈ x.sent ++ written.toList, ∃ request,
      (x.client.sent ++ [makeRequest x.client.takeId method params])[s.1]? = some request ∧
        wire.written request.envelope = some s.2
    intro s hs
    obtain hold | hnew := List.mem_append.mp hs
    · obtain ⟨request, hrequest, hv⟩ := h.sent s hold
      exact ⟨request, ServerSession.getElem?_snoc_of_some hrequest, hv⟩
    · obtain ⟨hnumber, hv⟩ := hwritten s hnew
      rw [hnumber, ← hlength, List.getElem?_concat_length]
      exact ⟨_, rfl, hv⟩
  · change ((x.sent ++ written.toList).map Prod.fst).Nodup
    rw [List.map_append]
    refine List.nodup_append.mpr ⟨h.sentOnce, ?_, ?_⟩
    · cases written with
      | none => exact List.nodup_nil
      | some s => exact List.nodup_singleton _
    · intro k hk k' hk' heq
      obtain ⟨s, hs, rfl⟩ := List.mem_map.mp hk
      obtain ⟨s', hs', rfl⟩ := List.mem_map.mp hk'
      obtain ⟨request, hrequest, -⟩ := h.sent s hs
      have hlt := (h.id_of_sent hrequest).1
      rw [heq, (hwritten s' hs').1] at hlt
      exact absurd hlt (Nat.lt_irrefl _)
  · change x.received ≤ (x.sent ++ written.toList).length
    rw [List.length_append]
    exact Nat.le_add_right_of_le h.received
  · have hvalues : (x.request wire kind method params).values wire = x.values wire := by
      change ((x.sent ++ written.toList).take x.received).map (fun s => wire.read s.2) = _
      rw [List.take_append_of_le_length h.received]
      rfl
    rw [hvalues]
    exact h.serves
  · intro k message hresolved
    change (x.client.step kind (.request method params none)).promise k = _ at hresolved
    obtain hbefore | hnow := ClientSession.resolved_by_message kind hresolved
    · obtain ⟨i, v, w, hv, hw, heq⟩ := h.resolved k message hbefore
      refine ⟨i, v, w, ?_, hw, heq⟩
      change (x.sent ++ written.toList)[i]? = some (k, v)
      obtain ⟨hlt, -⟩ := List.getElem?_eq_some_iff.mp hv
      rw [List.getElem?_append_left hlt, hv]
    · cases hnow
  · intro i v w k hw hv
    obtain ⟨j, v', -, hv', -⟩ := h.request_of_answered (List.mem_of_mem_take hw)
    have hold : (x.sent ++ written.toList)[i]? = some (j, v') := by
      obtain ⟨hlt, -⟩ := List.getElem?_eq_some_iff.mp hv'
      rw [List.getElem?_append_left hlt, hv']
    change (x.sent ++ written.toList)[i]? = some (k, v) at hv
    rw [hold] at hv
    obtain ⟨rfl, rfl⟩ := Prod.mk.inj (Option.some.inj hv)
    obtain ⟨o, ho⟩ := Option.isSome_iff_exists.mp (h.settled i v' w j hw hv')
    change ((x.client.step kind (.request method params none)).promise j).isSome = true
    rw [ClientSession.step_settled kind h.consistent (.request method params none) ho]
    rfl

/-- An event of the server that hands nothing to it. -/
theorem Agrees.server (h : Agrees texts wire spec x) (event : ServerEvent)
    (hserves : Answering spec (x.values wire) (x.server.step spec event)) :
    Agrees texts wire spec { x with server := x.server.step spec event } := by
  refine ⟨h.consistent, h.ids, h.sent, h.sentOnce, h.received, hserves, ?_, h.answeredOnce, h.taken,
    h.resolved, h.settled⟩
  intro a ha
  obtain ⟨response, hreply, hwritten⟩ := h.answered a ha
  exact ⟨response, ServerSession.step_grows spec x.server event hreply, hwritten⟩

theorem Agrees.receive (h : Agrees texts wire spec x) :
    Agrees texts wire spec (x.receive wire spec) := by
  rw [Exchange.receive]
  split
  · exact h
  · next k v hnext =>
    obtain ⟨hlt, -⟩ := List.getElem?_eq_some_iff.mp hnext
    refine ⟨h.consistent, h.ids, h.sent, h.sentOnce, hlt, ?_, ?_, h.answeredOnce, h.taken,
      h.resolved, h.settled⟩
    · have hserves := h.serves.message (wire.read v)
      rw [values] at hserves ⊢
      rw [List.take_add_one, hnext, List.map_append]
      exact hserves
    · intro a ha
      obtain ⟨response, hreply, hwritten⟩ := h.answered a ha
      exact ⟨response, ServerSession.step_grows spec x.server _ hreply, hwritten⟩

theorem response_eq_some {i : Nat} {w : V} (h : x.response wire i = some w) :
    i ∉ x.answered.map Prod.fst ∧ ∃ response, (i, response) ∈ x.server.replies ∧
      wire.written response.envelope = some w := by
  rw [response] at h
  split at h
  · cases h
  · next hnot =>
    refine ⟨hnot, ?_⟩
    split at h
    · cases h
    · next i' response hfind =>
      have hi : i' = i := by simpa using List.find?_some hfind
      subst hi
      exact ⟨response, List.mem_of_find?_eq_some hfind, h⟩

theorem Agrees.respond (h : Agrees texts wire spec x) (i : Nat) :
    Agrees texts wire spec (x.respond wire i) := by
  rw [Exchange.respond]
  cases hresponse : x.response wire i with
  | none =>
    rw [Option.map_none, Option.toList_none, List.append_nil]
    exact h
  | some w =>
    obtain ⟨hnot, response, hreply, hwritten⟩ := response_eq_some hresponse
    refine ⟨h.consistent, h.ids, h.sent, h.sentOnce, h.received, h.serves, ?_, ?_, ?_, ?_, ?_⟩
    · intro a ha
      obtain hold | hnew := List.mem_append.mp ha
      · exact h.answered a hold
      · obtain rfl := List.mem_singleton.mp hnew
        exact ⟨response, hreply, hwritten⟩
    · rw [List.map_append]
      refine List.nodup_append.mpr ⟨h.answeredOnce, List.nodup_singleton i, ?_⟩
      intro j hj j' hj' heq
      obtain rfl := List.mem_singleton.mp hj'
      exact hnot (heq ▸ hj)
    · rw [List.length_append]
      exact Nat.le_add_right_of_le h.taken
    · intro k message hresolved
      obtain ⟨j, v, w', hv, hw', heq⟩ := h.resolved k message hresolved
      exact ⟨j, v, w', hv, List.mem_append_left _ hw', heq⟩
    · intro j v w' k hw' hv
      rw [List.take_append_of_le_length h.taken] at hw'
      exact h.settled j v w' k hw' hv

/-- What a message does to a promise: it resolves it if it has its id and nothing settled it
before. -/
theorem handleMessage_promise {s : ClientSession E}
    (h : Table.Consistent (requestKey texts) s.table) (message : Json) {k : Nat}
    (hk : k < s.table.issued) :
    (s.handleMessage kind message).promise k =
      (s.promise k).or (if carriesId k message = true then some (.resolved message) else none) := by
  rw [ClientSession.promise, ClientSession.handleMessage,
    Table.deliver_promise (requestKey_injective texts) h message hk]
  simp only [kind.finds]
  rfl

theorem Agrees.take (h : Agrees texts wire spec x) :
    Agrees texts wire spec (x.take wire kind) := by
  rw [Exchange.take]
  split
  · exact h
  · next i w hnext =>
    obtain ⟨hlt, -⟩ := List.getElem?_eq_some_iff.mp hnext
    obtain ⟨k, v, response, hv, hk, -, -, -, hid⟩ :=
      h.request_of_answered (List.mem_of_getElem? hnext)
    have hconsistent := ClientSession.step_consistent kind h.consistent (.message (wire.read w))
    have hissued :
        (x.client.handleMessage kind (wire.read w)).table.issued = x.client.table.issued :=
      ClientSession.step_issued kind x.client (.message (wire.read w))
    have hpromise : ∀ j, j < x.client.table.issued →
        (x.client.handleMessage kind (wire.read w)).promise j =
          (x.client.promise j).or (if j = k then some (.resolved (wire.read w)) else none) := by
      intro j hj
      rw [handleMessage_promise h.consistent _ hj]
      congr 1
      simp only [carriesId_iff, hid, Option.some.injEq, Json.num.injEq]
      simp only [requestId_injective.eq_iff, eq_comm]
    refine ⟨hconsistent, ?_, h.sent, h.sentOnce, h.received, h.serves, h.answered, h.answeredOnce,
      hlt, ?_, ?_⟩
    · rw [hissued]
      exact h.ids
    · intro j message hresolved
      have hj : j < x.client.table.issued := by
        by_contra hnot
        have hnone := hconsistent.unissued j (by
          change (x.client.handleMessage kind (wire.read w)).table.issued ≤ j
          omega)
        change (x.client.handleMessage kind (wire.read w)).promise j = none at hnone
        rw [hnone] at hresolved
        cases hresolved
      rw [hpromise j hj] at hresolved
      cases hbefore : x.client.promise j with
      | some o =>
        rw [hbefore, Option.some_or, ← hbefore] at hresolved
        exact h.resolved j message hresolved
      | none =>
        rw [hbefore, Option.none_or] at hresolved
        split at hresolved
        · next hjk =>
          subst hjk
          obtain rfl := Outcome.resolved.inj (Option.some.inj hresolved)
          exact ⟨i, v, w, hv, List.mem_of_getElem? hnext, rfl⟩
        · cases hresolved
    · intro i' v' w' k' hw' hv'
      rw [List.take_add_one, hnext, Option.toList_some] at hw'
      obtain hold | hnew := List.mem_append.mp hw'
      · obtain ⟨o, ho⟩ := Option.isSome_iff_exists.mp (h.settled i' v' w' k' hold hv')
        have hsettled := ClientSession.step_settled kind h.consistent (.message (wire.read w)) ho
        exact Option.isSome_iff_exists.mpr ⟨o, hsettled⟩
      · obtain ⟨rfl, rfl⟩ := Prod.mk.inj (List.mem_singleton.mp hnew)
        rw [hv] at hv'
        obtain ⟨rfl, rfl⟩ := Prod.mk.inj (Option.some.inj hv')
        rw [hpromise k hk, if_pos rfl]
        cases x.client.promise k with
        | none => rfl
        | some o => rfl

variable (wire kind spec) in
theorem step_agrees (h : Agrees texts wire spec x) (event : ExchangeEvent) :
    Agrees texts wire spec (step wire kind spec x event) := by
  cases event with
  | request method params => exact h.request method params
  | timeout k => exact h.client kind (.timeout k) rfl (fun _ => by simp) x.hungUp
  | sendFailed k error => exact h.client kind (.sendFailed k error) rfl (fun _ => by simp) x.hungUp
  | sent k => exact h.client kind (.sent k) rfl (fun _ => by simp) x.hungUp
  | close => exact h.client kind .close rfl (fun _ => by simp) true
  | receive => exact h.receive
  | toolDone i outcome => exact h.server (.toolDone i outcome) (h.serves.toolDone i outcome)
  | respond i => exact h.respond i
  | stop => exact h.server .close h.serves.close
  | take => exact h.take

variable (wire kind spec) in
/-- Whatever happens in whatever order, the two sides agree. -/
theorem after_agrees (events : List ExchangeEvent) :
    Agrees texts wire spec (after wire kind spec events) :=
  Serial.runAll_invariant _ _ (Agrees texts wire spec) agrees_new
    (fun _ event h => step_agrees wire kind spec h event) events

variable (kind) in
/-- The server receives the requests that come next, one after the other. -/
theorem receive_all {next : List V} {x : Exchange V E}
    (h : next <+: (x.sent.map Prod.snd).drop x.received) :
    Serial.runAll (step wire kind spec) x (List.replicate next.length .receive) =
      { x with
        received := x.received + next.length
        server := Serial.runAll (ServerSession.step spec) x.server
          (next.map fun v => .message (wire.read v)) } := by
  induction next generalizing x with
  | nil => rfl
  | cons v next ih =>
    obtain ⟨rest, hrest⟩ := h
    have hfirst : (x.sent.map Prod.snd)[x.received]? = some v := by
      rw [← List.head?_drop, ← hrest]
      rfl
    rw [List.getElem?_map] at hfirst
    obtain ⟨⟨k, v'⟩, hnext, rfl⟩ := Option.map_eq_some_iff.mp hfirst
    have hstep : step wire kind spec x .receive =
        { x with
          received := x.received + 1
          server := x.server.step spec (.message (wire.read v')) } := by
      rw [step, Exchange.receive, hnext]
    rw [List.length_cons, List.replicate_succ, Serial.runAll, List.foldl_cons, hstep,
      ← Serial.runAll, ih]
    · rw [Nat.add_assoc, Nat.add_comm 1]
      rfl
    · refine ⟨rest, ?_⟩
      rw [← List.drop_drop, ← hrest, List.cons_append]
      rfl

variable (spec) in
/-- The client takes the replies that come next, one after the other. -/
theorem take_all {next : List V} {x : Exchange V E}
    (h : next <+: (x.answered.map Prod.snd).drop x.taken) :
    Serial.runAll (step wire kind spec) x (List.replicate next.length .take) =
      { x with
        taken := x.taken + next.length
        client := Serial.runAll (ClientSession.step kind) x.client
          (next.map fun w => .message (wire.read w)) } := by
  induction next generalizing x with
  | nil => rfl
  | cons w next ih =>
    obtain ⟨rest, hrest⟩ := h
    have hfirst : (x.answered.map Prod.snd)[x.taken]? = some w := by
      rw [← List.head?_drop, ← hrest]
      rfl
    rw [List.getElem?_map] at hfirst
    obtain ⟨⟨i, w'⟩, hnext, rfl⟩ := Option.map_eq_some_iff.mp hfirst
    have hstep : step wire kind spec x .take =
        { x with taken := x.taken + 1, client := x.client.handleMessage kind (wire.read w') } := by
      rw [step, Exchange.take, hnext]
    rw [List.length_cons, List.replicate_succ, Serial.runAll, List.foldl_cons, hstep,
      ← Serial.runAll, ih]
    · rw [Nat.add_assoc, Nat.add_comm 1]
      rfl
    · refine ⟨rest, ?_⟩
      rw [← List.drop_drop, ← hrest, List.cons_append]
      rfl

/-- The replies to a delivery are the one there is. -/
theorem Agrees.repliesTo (h : Agrees texts wire spec x) {i : Nat} {response : JsonRpcResponse}
    (hreply : (i, response) ∈ x.server.replies) : x.server.repliesTo i = [response] := by
  have honce := h.serves.once
  rw [ServerSession.owned] at honce
  have hreplies := (List.nodup_append.mp honce).1
  rw [ServerSession.repliesTo]
  generalize x.server.replies = replies at hreply hreplies
  induction replies with
  | nil => cases hreply
  | cons first rest ih =>
    obtain ⟨hfirst, hrest⟩ := List.nodup_cons.mp hreplies
    obtain rfl | hmem := List.mem_cons.mp hreply
    · rw [List.filter_cons_of_pos (by simp), List.map_cons, List.filter_eq_nil_iff.mpr,
        List.map_nil]
      intro other hother
      have hne : other.1 ≠ i := fun heq => hfirst (List.mem_map.mpr ⟨other, hother, heq⟩)
      simpa using hne
    · have hne : first.1 ≠ i := by
        rintro rfl
        exact hfirst (List.mem_map.mpr ⟨_, hmem, rfl⟩)
      rw [List.filter_cons_of_neg (by simpa using hne)]
      exact ih hmem hrest

/-- A request is resolved with what the client reads of the server's one reply to it. -/
theorem Agrees.reply_of_resolved (h : Agrees texts wire spec x) {k : Nat} {message : Json}
    (hresolved : x.client.promise k = some (.resolved message)) :
    ∃ i request v response w, x.client.sent[k]? = some request ∧
      wire.written request.envelope = some v ∧ x.sent[i]? = some (k, v) ∧
      handleInbound spec (wire.read v) = dispatch spec (.num (requestId k)) request.method
        ((wire.read v).member (js "params")) ∧
      Answers spec (wire.read v) response ∧ x.server.repliesTo i = [response] ∧
      wire.written response.envelope = some w ∧ message = wire.read w := by
  obtain ⟨i, v, w, hv, hw, rfl⟩ := h.resolved k message hresolved
  obtain ⟨k', v', response, hv', -, hreply, hwritten, hanswers, -⟩ := h.request_of_answered hw
  rw [hv] at hv'
  obtain ⟨rfl, rfl⟩ := Prod.mk.inj (Option.some.inj hv')
  obtain ⟨request, hrequest, hsent⟩ := h.sent (k, v) (List.mem_of_getElem? hv)
  have hid := (h.id_of_sent hrequest).2
  exact ⟨i, request, v, response, w, hrequest, hsent, hv,
    handleInbound_request wire spec hsent hid, hanswers, h.repliesTo hreply, hwritten, rfl⟩

/-- Nothing is on its way and nothing is left to do: what was written has been read, no tool
handler is at work, every reply is written, and the server serves. -/
structure Quiet (x : Exchange V E) : Prop where
  received : x.received = x.sent.length
  calls : x.server.calls = []
  responded : ∀ reply ∈ x.server.replies, reply.1 ∈ x.answered.map Prod.fst
  taken : x.taken = x.answered.length
  isOpen : x.server.closed = false
  rejections : x.server.rejections = []

/-- When all is quiet every request that was written is settled. -/
theorem Agrees.settles (h : Agrees texts wire spec x) (hquiet : Quiet x) :
    ∀ s ∈ x.sent, (x.client.promise s.1).isSome := by
  intro s hs
  obtain ⟨i, hi⟩ := List.mem_iff_getElem?.mp hs
  obtain ⟨request, hrequest, hv⟩ := h.sent s hs
  have hid := read_request_id wire hv (h.id_of_sent hrequest).2
  have hvalue : (x.values wire)[i]? = some (wire.read s.2) := by
    rw [values, hquiet.received, List.take_length, List.getElem?_map, hi]
    rfl
  have howned := h.serves.owed hquiet.isOpen hquiet.rejections i _ _ hvalue hid
  rw [ServerSession.owned, hquiet.calls, List.map_nil, List.append_nil] at howned
  obtain ⟨reply, hreply, rfl⟩ := List.mem_map.mp howned
  obtain ⟨⟨j, w⟩, hw, hj⟩ := List.mem_map.mp (hquiet.responded reply hreply)
  obtain rfl : j = reply.1 := hj
  rw [← x.answered.take_length, ← hquiet.taken] at hw
  exact h.settled _ s.2 w s.1 hw hi

end agreement

end Exchange

end Mcp

end Solarcido
