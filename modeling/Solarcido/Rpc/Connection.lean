import Solarcido.Rpc.Settlement

namespace Solarcido.Rpc

open Text Requests

/-- Whether a value counts as true in a condition. -/
def truthy : Option Json → Bool
  | none => false
  | some .null => false
  | some (.bool b) => b
  | some (.num n) => n ≠ .nan ∧ n ≠ .finite 0
  | some (.str s) => s ≠ []
  | some (.arr _) => true
  | some (.obj _) => true

/-- A handshake has succeeded when it is resolved without an error and with a result. -/
def succeeded {E : Type} : Outcome Json (Failure E) → Bool
  | .resolved response =>
    !truthy (response.member (js "error")) && (response.member (js "result")).isSome
  | .rejected _ => false

/-- A client that makes its handshake when an operation first needs it: the methods of its other
requests, what it notifies the server of after the handshake, and whether its close makes it
forget the handshake. -/
structure LazyClient (texts : TemplateText) (E : Type) where
  session : ClientKind texts E
  methods : List JsString
  notifies : List JsString
  closeForgets : Bool
  initialize_not_mem : js "initialize" ∉ methods

/-- How far a caller of such an operation has come: it awaits the request of its handshake, or is
through, or has failed. -/
inductive Caller where
  | initializing (k : Nat)
  | ready
  | failed
  deriving DecidableEq

structure Connection (E : Type) where
  session : ClientSession E
  initialized : Bool
  callers : List Caller
  notifications : List JsString
  closed : Bool

/-- What happens on a connection: an operation that needs the handshake is called, a caller goes
on, or something happens to the session. -/
inductive ConnectionEvent where
  | call (params : Json) (sendThrows : Option Thrown)
  | resume (i : Nat)
  | session (event : ClientEvent)

namespace Connection

variable {texts : TemplateText} {E : Type} (client : LazyClient texts E)

def new : Connection E := ⟨.new, false, [], [], false⟩

/-- `ensureInitialized` and `initialize` up to the `await`. -/
def call (params : Json) (sendThrows : Option Thrown) (c : Connection E) : Connection E :=
  if c.initialized then { c with callers := c.callers ++ [.ready] }
  else
    { c with
      session := c.session.request client.session (js "initialize") (some params) sendThrows
      callers := c.callers ++ [.initializing c.session.table.issued] }

/-- What a caller does when its request is settled. -/
def finish (i : Nat) (o : Outcome Json (Failure E)) (c : Connection E) : Connection E :=
  if succeeded o then
    { c with
      initialized := true
      callers := c.callers.set i .ready
      notifications := c.notifications ++ client.notifies }
  else { c with callers := c.callers.set i .failed }

def resume (i : Nat) (c : Connection E) : Connection E :=
  match c.callers[i]? with
  | some (.initializing k) =>
    match c.session.promise k with
    | some o => finish client i o c
    | none => c
  | _ => c

def close (c : Connection E) : Connection E :=
  { c with
    session := c.session.close client.session
    initialized := !client.closeForgets && c.initialized
    closed := true }

def step (c : Connection E) : ConnectionEvent → Connection E
  | .call params sendThrows => c.call client params sendThrows
  | .resume i => c.resume client i
  | .session .close => c.close client
  | .session event => { c with session := c.session.step client.session event }

/-- The other requests have other methods, and a closed connection carries no messages. -/
def Possible (c : Connection E) : ConnectionEvent → Prop
  | .session event => (∀ message, event = .message message → c.closed = false) ∧
    ∀ method params sendThrows, event = .request method params sendThrows →
      method ∈ client.methods
  | _ => True

def after (events : List ConnectionEvent) : Connection E :=
  Serial.runAll (step client) new events

end Connection

/-- An MCP session, whose four operations begin with `ensureInitialized`. -/
def mcpClient (texts : TemplateText) (serverName : JsString) (requestTimeoutMs : Option JsNumber) :
    LazyClient texts Mcp.Client.McpClientError where
  session := Mcp.Client.session texts serverName requestTimeoutMs
  methods := [js "tools/list", js "tools/call", js "resources/list", js "resources/read"]
  notifies := []
  closeForgets := false
  initialize_not_mem := by decide

/-- An LSP session. Its `shutdown` makes a request of its own before it closes. -/
def lspClient (texts : TemplateText) (requestTimeoutMs : Option JsNumber) :
    LazyClient texts Lsp.LspClientError where
  session := Lsp.session texts requestTimeoutMs
  methods := [js "textDocument/hover", js "textDocument/definition", js "shutdown"]
  notifies := [js "initialized"]
  closeForgets := true
  initialize_not_mem := by decide

end Solarcido.Rpc

namespace Solarcido.Rpc.Connection

open Text Requests

variable {texts : TemplateText} {E : Type}

section handshakes

/-- The request is one of a handshake. -/
def IsHandshake (s : ClientSession E) (k : Nat) : Prop :=
  ∃ request, s.sent[k]? = some request ∧ request.method = js "initialize"

def Succeeded (c : Connection E) (k : Nat) : Prop :=
  IsHandshake c.session k ∧ ∃ o, c.session.promise k = some o ∧ succeeded o = true

/-- The request has not failed. -/
def Live (c : Connection E) (k : Nat) : Prop :=
  ∀ o, c.session.promise k = some o → succeeded o = true

/-- One handshake at a time, one that succeeds, and nobody through without it. -/
structure OneHandshake (c : Connection E) : Prop where
  outstanding : ∀ j k, IsHandshake c.session j → IsHandshake c.session k →
    c.session.promise j = none → c.session.promise k = none → j = k
  successful : ∀ j k, Succeeded c j → Succeeded c k → j = k
  followed : Caller.ready ∈ c.callers → ∃ k, Succeeded c k

/-- An operation is called only when the handshake is done or the handshakes of all callers still
in it have failed. -/
def Orderly (c : Connection E) (event : ConnectionEvent) : Prop :=
  ∀ params sendThrows, event = .call params sendThrows → c.initialized = false →
    ∀ k, Caller.initializing k ∈ c.callers → ¬ Live c k

/-- What holds on a connection whose operations are called in order. -/
structure Handshaking (texts : TemplateText) (c : Connection E) : Prop where
  consistent : Table.Consistent (requestKey texts) c.session.table
  length : c.session.sent.length = c.session.table.issued
  awaited : ∀ k, IsHandshake c.session k → Caller.initializing k ∈ c.callers ∨
    ∃ o, c.session.promise k = some o ∧
      (succeeded o = true → c.initialized = true ∨ c.closed = true)
  issued : ∀ k, Caller.initializing k ∈ c.callers → IsHandshake c.session k
  alone : ∀ i j k l : Nat, c.callers[i]? = some (.initializing k) →
    c.callers[j]? = some (.initializing l) → Live c k → Live c l → i = j
  idle : c.initialized = true → ∀ k, Caller.initializing k ∈ c.callers → ¬ Live c k
  once : ∀ j k, Succeeded c j → Succeeded c k → j = k
  done : c.initialized = true ∨ Caller.ready ∈ c.callers → ∃ k, Succeeded c k

theorem new_handshaking : Handshaking texts (new : Connection E) where
  consistent := Table.new_consistent
  length := rfl
  awaited := by
    rintro k ⟨request, hrequest, -⟩
    simp [new, ClientSession.new] at hrequest
  issued := by
    intro k hk
    simp [new] at hk
  alone := by
    intro i j k l hi
    simp [new] at hi
  idle := by
    intro h
    cases h
  once := by
    rintro j k ⟨⟨request, hrequest, -⟩, -⟩
    simp [new, ClientSession.new] at hrequest
  done := by
    intro h
    simp [new] at h

theorem live_of_none {c : Connection E} {k : Nat} (h : c.session.promise k = none) : Live c k := by
  intro o ho
  rw [h] at ho
  cases ho

theorem Succeeded.live {c : Connection E} {k : Nat} (h : Succeeded c k) : Live c k := by
  intro o ho
  obtain ⟨-, o', ho', hsucceeded⟩ := h
  rw [ho] at ho'
  rw [Option.some.inj ho']
  exact hsucceeded

/-- While a handshake is outstanding on an open connection no other is live. -/
theorem Handshaking.only {c : Connection E} (h : Handshaking texts c) (hopen : c.closed = false)
    {j k : Nat} (hk : IsHandshake c.session k) (hnone : c.session.promise k = none)
    (hj : IsHandshake c.session j) (hlive : Live c j) : j = k := by
  obtain hk | ⟨o, ho, -⟩ := h.awaited k hk
  · obtain hj | ⟨o, ho, hflag⟩ := h.awaited j hj
    · obtain ⟨i, hi⟩ := List.mem_iff_getElem?.mp hk
      obtain ⟨i', hi'⟩ := List.mem_iff_getElem?.mp hj
      have hsame := h.alone i' i j k hi' hi hlive (live_of_none hnone)
      rw [hsame, hi] at hi'
      exact (Caller.initializing.inj (Option.some.inj hi')).symm
    · obtain hinitialized | hclosed := hflag (hlive o ho)
      · exact absurd (live_of_none hnone) (h.idle hinitialized k hk)
      · rw [hopen] at hclosed
        cases hclosed
  · rw [hnone] at ho
    cases ho

theorem Handshaking.oneHandshake {c : Connection E} (h : Handshaking texts c) :
    OneHandshake c where
  outstanding := by
    intro j k hj hk hjnone hknone
    obtain hjcaller | ⟨o, ho, -⟩ := h.awaited j hj
    · obtain hkcaller | ⟨o, ho, -⟩ := h.awaited k hk
      · obtain ⟨i, hi⟩ := List.mem_iff_getElem?.mp hjcaller
        obtain ⟨i', hi'⟩ := List.mem_iff_getElem?.mp hkcaller
        have hsame := h.alone i i' j k hi hi' (live_of_none hjnone) (live_of_none hknone)
        rw [hsame, hi'] at hi
        exact (Caller.initializing.inj (Option.some.inj hi)).symm
      · rw [hknone] at ho
        cases ho
    · rw [hjnone] at ho
      cases ho
  successful := h.once
  followed := fun hready => h.done (Or.inr hready)

end handshakes

section steps

variable (client : LazyClient texts E)

theorem sent_isHandshake {s s' : ClientSession E} {request : JsonRpcRequest}
    (hsent : s'.sent = s.sent ++ [request]) (k : Nat) :
    IsHandshake s' k ↔
      IsHandshake s k ∨ (k = s.sent.length ∧ request.method = js "initialize") := by
  rw [IsHandshake, hsent, IsHandshake]
  constructor
  · rintro ⟨request', hrequest, hmethod⟩
    by_cases hk : k < s.sent.length
    · rw [List.getElem?_append_left hk] at hrequest
      exact Or.inl ⟨request', hrequest, hmethod⟩
    · rw [List.getElem?_append_right (Nat.le_of_not_lt hk)] at hrequest
      have hlt := (List.getElem?_eq_some_iff.mp hrequest).1
      rw [List.length_singleton] at hlt
      obtain rfl := List.mem_singleton.mp (List.mem_of_getElem? hrequest)
      exact Or.inr ⟨by omega, hmethod⟩
  · rintro (⟨request', hrequest, hmethod⟩ | ⟨rfl, hmethod⟩)
    · refine ⟨request', ?_, hmethod⟩
      rw [List.getElem?_append_left (List.getElem?_eq_some_iff.mp hrequest).1]
      exact hrequest
    · exact ⟨request, List.getElem?_concat_length, hmethod⟩

/-- Nothing but the first part of an operation makes a handshake. -/
theorem session_isHandshake {s : ClientSession E} {event : ClientEvent}
    (hmethods : ∀ method params sendThrows, event = .request method params sendThrows →
      method ∈ client.methods) (k : Nat) :
    IsHandshake (s.step client.session event) k ↔ IsHandshake s k := by
  obtain ⟨-, hsent⟩ | ⟨method, params, sendThrows, hevent, hsent⟩ :=
    ClientSession.step_sent client.session s event
  · rw [IsHandshake, hsent, IsHandshake]
  · rw [sent_isHandshake hsent]
    constructor
    · rintro (hbefore | ⟨-, hmethod⟩)
      · exact hbefore
      · have hmem := hmethods method params sendThrows hevent
        rw [show method = js "initialize" from hmethod] at hmem
        exact absurd hmem client.initialize_not_mem
    · exact Or.inl

theorem request_isHandshake (s : ClientSession E) (params : Json) (sendThrows : Option Thrown)
    (k : Nat) :
    IsHandshake (s.request client.session (js "initialize") (some params) sendThrows) k ↔
      IsHandshake s k ∨ k = s.sent.length := by
  have hsent : (s.request client.session (js "initialize") (some params) sendThrows).sent =
      s.sent ++ [makeRequest s.takeId (js "initialize") (some params)] := rfl
  rw [sent_isHandshake hsent]
  exact or_congr_right (and_iff_left rfl)

/-- A promise that an event has resolved was resolved before, or the event is a message for it. -/
theorem succeeded_before {c : Connection E} (h : Handshaking texts c) {event : ClientEvent}
    {k : Nat} {o : Outcome Json (Failure E)}
    (ho : (c.session.step client.session event).promise k = some o)
    (hsucceeded : succeeded o = true) :
    c.session.promise k = some o ∨
      (c.session.promise k = none ∧ ∃ message, event = .message message) := by
  cases hbefore : c.session.promise k with
  | some o' =>
    rw [ClientSession.step_settled client.session h.consistent event hbefore] at ho
    exact Or.inl ho
  | none =>
    cases o with
    | rejected error => cases hsucceeded
    | resolved message =>
      obtain hresolved | hevent := ClientSession.resolved_by_message client.session ho
      · rw [hbefore] at hresolved
        cases hresolved
      · exact Or.inr ⟨rfl, message, hevent⟩

/-- The events of the session that make no handshake, and the close. -/
theorem session_handshaking {c c' : Connection E} (h : Handshaking texts c) {event : ClientEvent}
    (hmethods : ∀ method params sendThrows, event = .request method params sendThrows →
      method ∈ client.methods)
    (hopen : ∀ message, event = .message message → c.closed = false)
    (hsession : c'.session = c.session.step client.session event)
    (hcallers : c'.callers = c.callers)
    (hinitialized : c'.initialized = true → c.initialized = true)
    (hflag : c.initialized = true ∨ c.closed = true → c'.initialized = true ∨ c'.closed = true) :
    Handshaking texts c' := by
  have hhandshake (k : Nat) : IsHandshake c'.session k ↔ IsHandshake c.session k := by
    rw [hsession]
    exact session_isHandshake client hmethods k
  have hstays {k : Nat} {o : Outcome Json (Failure E)} (ho : c.session.promise k = some o) :
      c'.session.promise k = some o := by
    rw [hsession]
    exact ClientSession.step_settled client.session h.consistent event ho
  have hlive {k : Nat} (hk : Live c' k) : Live c k := fun o ho => hk o (hstays ho)
  have hsucceeded {k : Nat} (hk : Succeeded c' k) : Succeeded c k ∨
      (c.session.promise k = none ∧ c.closed = false) := by
    obtain ⟨hhand, o, ho, hgood⟩ := hk
    rw [hsession] at ho
    obtain hbefore | ⟨hnone, message, hevent⟩ := succeeded_before client h ho hgood
    · exact Or.inl ⟨(hhandshake k).mp hhand, o, hbefore, hgood⟩
    · exact Or.inr ⟨hnone, hopen message hevent⟩
  refine ⟨?_, ?_, ?_, ?_, ?_, ?_, ?_, ?_⟩
  · rw [hsession]
    exact ClientSession.step_consistent client.session h.consistent event
  · rw [hsession, ClientSession.step_issued, ← h.length]
    obtain ⟨hother, hsent⟩ | ⟨method, params, sendThrows, rfl, hsent⟩ :=
      ClientSession.step_sent client.session c.session event
    · rw [hsent, hother]
      rfl
    · rw [hsent, List.length_append]
      rfl
  · intro k hk
    obtain hcaller | ⟨o, ho, hdone⟩ := h.awaited k ((hhandshake k).mp hk)
    · rw [hcallers]
      exact Or.inl hcaller
    · exact Or.inr ⟨o, hstays ho, fun hgood => hflag (hdone hgood)⟩
  · intro k hk
    rw [hcallers] at hk
    exact (hhandshake k).mpr (h.issued k hk)
  · intro i j k l hi hj hk hl
    rw [hcallers] at hi hj
    exact h.alone i j k l hi hj (hlive hk) (hlive hl)
  · intro hflagged k hk hkLive
    rw [hcallers] at hk
    exact h.idle (hinitialized hflagged) k hk (hlive hkLive)
  · intro j k hj hk
    obtain hkBefore | ⟨hkNone, hopened⟩ := hsucceeded hk
    · obtain hjBefore | ⟨hjNone, hopened⟩ := hsucceeded hj
      · exact h.once j k hjBefore hkBefore
      · exact (h.only hopened ((hhandshake j).mp hj.1) hjNone hkBefore.1 hkBefore.live).symm
    · exact h.only hopened ((hhandshake k).mp hk.1) hkNone ((hhandshake j).mp hj.1) (hlive hj.live)
  · intro hdone
    rw [hcallers] at hdone
    obtain ⟨k, hhand, o, ho, hgood⟩ := h.done (hdone.imp_left hinitialized)
    exact ⟨k, (hhandshake k).mpr hhand, o, hstays ho, hgood⟩

theorem call_ready_handshaking {c : Connection E} (h : Handshaking texts c)
    (hinitialized : c.initialized = true) :
    Handshaking texts { c with callers := c.callers ++ [.ready] } := by
  have hold {i k : Nat} (hi : (c.callers ++ [.ready])[i]? = some (.initializing k)) :
      c.callers[i]? = some (.initializing k) := by
    by_cases hlt : i < c.callers.length
    · rwa [List.getElem?_append_left hlt] at hi
    · rw [List.getElem?_append_right (Nat.le_of_not_lt hlt)] at hi
      cases List.mem_singleton.mp (List.mem_of_getElem? hi)
  have hmem {k : Nat} (hk : Caller.initializing k ∈ c.callers ++ [.ready]) :
      Caller.initializing k ∈ c.callers := by
    obtain hk | hk := List.mem_append.mp hk
    · exact hk
    · cases List.mem_singleton.mp hk
  refine ⟨h.consistent, h.length, ?_, ?_, ?_, ?_, h.once, ?_⟩
  · intro k hk
    exact (h.awaited k hk).imp_left fun hcaller => List.mem_append_left _ hcaller
  · intro k hk
    exact h.issued k (hmem hk)
  · intro i j k l hi hj hk hl
    exact h.alone i j k l (hold hi) (hold hj) hk hl
  · intro hflag k hk hlive
    exact h.idle hflag k (hmem hk) hlive
  · intro _
    exact h.done (Or.inl hinitialized)

theorem call_request_handshaking {c : Connection E} (h : Handshaking texts c) (params : Json)
    (sendThrows : Option Thrown) (hinitialized : c.initialized = false)
    (horderly : ∀ k, Caller.initializing k ∈ c.callers → ¬ Live c k) :
    Handshaking texts
      { c with
        session := c.session.request client.session (js "initialize") (some params) sendThrows
        callers := c.callers ++ [.initializing c.session.table.issued] } := by
  have hstep : c.session.request client.session (js "initialize") (some params) sendThrows =
      c.session.step client.session (.request (js "initialize") (some params) sendThrows) := rfl
  have hhandshake := request_isHandshake client c.session params sendThrows
  have hstays {k : Nat} {o : Outcome Json (Failure E)} (ho : c.session.promise k = some o) :
      (c.session.request client.session (js "initialize") (some params) sendThrows).promise k =
        some o := by
    rw [hstep]
    exact ClientSession.step_settled client.session h.consistent _ ho
  have hbefore {k : Nat} {o : Outcome Json (Failure E)}
      (ho : (c.session.request client.session (js "initialize") (some params) sendThrows).promise
        k = some o) (hgood : succeeded o = true) : c.session.promise k = some o := by
    rw [hstep] at ho
    obtain hbefore | ⟨-, message, hevent⟩ := succeeded_before client h ho hgood
    · exact hbefore
    · cases hevent
  have hunissued : c.session.promise c.session.table.issued = none :=
    h.consistent.unissued _ (Nat.le_refl _)
  -- a caller that is in a handshake is the new one or was there, and then has failed
  have hlast {i k : Nat}
      (hi : (c.callers ++ [.initializing c.session.table.issued])[i]? = some (.initializing k))
      (hlive : ∀ o, (c.session.request client.session (js "initialize") (some params)
        sendThrows).promise k = some o → succeeded o = true) : i = c.callers.length := by
    by_cases hlt : i < c.callers.length
    · rw [List.getElem?_append_left hlt] at hi
      exact absurd (fun o ho => hlive o (hstays ho)) (horderly k (List.mem_of_getElem? hi))
    · have hbound := (List.getElem?_eq_some_iff.mp hi).1
      rw [List.length_append, List.length_singleton] at hbound
      omega
  refine ⟨?_, ?_, ?_, ?_, ?_, ?_, ?_, ?_⟩
  · rw [hstep]
    exact ClientSession.step_consistent client.session h.consistent _
  · simp only [ClientSession.request, Table.issue, List.length_append, h.length]
    rfl
  · intro k hk
    obtain hk | rfl := (hhandshake k).mp hk
    · obtain hcaller | ⟨o, ho, hdone⟩ := h.awaited k hk
      · exact Or.inl (List.mem_append_left _ hcaller)
      · exact Or.inr ⟨o, hstays ho, hdone⟩
    · rw [h.length]
      exact Or.inl (List.mem_append_right _ List.mem_cons_self)
  · intro k hk
    obtain hk | hk := List.mem_append.mp hk
    · exact (hhandshake k).mpr (Or.inl (h.issued k hk))
    · rw [Caller.initializing.inj (List.mem_singleton.mp hk), ← h.length]
      exact (hhandshake _).mpr (Or.inr rfl)
  · intro i j k l hi hj hk hl
    rw [hlast hi hk, hlast hj hl]
  · intro hflag
    rw [hinitialized] at hflag
    cases hflag
  · have hold {k : Nat} (hk : Succeeded
        { c with
          session := c.session.request client.session (js "initialize") (some params) sendThrows
          callers := c.callers ++ [.initializing c.session.table.issued] } k) : Succeeded c k := by
      obtain ⟨hhand, o, ho, hgood⟩ := hk
      have hpromise := hbefore ho hgood
      obtain hhand | rfl := (hhandshake k).mp hhand
      · exact ⟨hhand, o, hpromise, hgood⟩
      · rw [h.length, hunissued] at hpromise
        cases hpromise
    intro j k hj hk
    exact h.once j k (hold hj) (hold hk)
  · intro hdone
    have hready : c.initialized = true ∨ Caller.ready ∈ c.callers := by
      obtain hflag | hready := hdone
      · exact Or.inl hflag
      · obtain hready | hready := List.mem_append.mp hready
        · exact Or.inr hready
        · cases List.mem_singleton.mp hready
    obtain ⟨k, hhand, o, ho, hgood⟩ := h.done hready
    exact ⟨k, (hhandshake k).mpr (Or.inl hhand), o, hstays ho, hgood⟩

/-- A caller that goes on leaves the others where they are. -/
theorem set_initializing {callers : List Caller} {i i' l : Nat} {x : Caller}
    (hx : ∀ k, x ≠ .initializing k)
    (h : (callers.set i x)[i']? = some (.initializing l)) :
    i' ≠ i ∧ callers[i']? = some (.initializing l) := by
  rw [List.getElem?_set] at h
  split at h
  · split at h
    · exact absurd (Option.some.inj h) (hx l)
    · cases h
  · next hne => exact ⟨Ne.symm hne, h⟩

theorem mem_set_or {callers : List Caller} {i k l : Nat} (x : Caller)
    (hi : callers[i]? = some (.initializing k)) (h : Caller.initializing l ∈ callers) :
    l = k ∨ Caller.initializing l ∈ callers.set i x := by
  obtain ⟨i', hi'⟩ := List.mem_iff_getElem?.mp h
  by_cases hsame : i = i'
  · subst hsame
    rw [hi] at hi'
    exact Or.inl (Caller.initializing.inj (Option.some.inj hi')).symm
  · right
    apply List.mem_of_getElem? (i := i')
    rw [List.getElem?_set_ne hsame]
    exact hi'

/-- A caller goes on from its handshake; the flag is set if it has succeeded. -/
theorem set_handshaking {c : Connection E} (h : Handshaking texts c) {i k : Nat}
    (hi : c.callers[i]? = some (.initializing k)) {o : Outcome Json (Failure E)}
    (ho : c.session.promise k = some o) {x : Caller} (hx : ∀ l, x ≠ .initializing l)
    (hready : x = .ready → succeeded o = true) {flag : Bool}
    (hflag : flag = true ↔ c.initialized = true ∨ succeeded o = true)
    (notifications : List JsString) :
    Handshaking texts { c with
      initialized := flag
      callers := c.callers.set i x
      notifications := notifications } := by
  have hissued := h.issued k (List.mem_of_getElem? hi)
  have hset {i' l : Nat} (hl : (c.callers.set i x)[i']? = some (.initializing l)) :
      i' ≠ i ∧ c.callers[i']? = some (.initializing l) := set_initializing hx hl
  have hdone (hgood : succeeded o = true) : ∃ l, Succeeded c l := ⟨k, hissued, o, ho, hgood⟩
  refine ⟨h.consistent, h.length, ?_, ?_, ?_, ?_, h.once, ?_⟩
  · intro l hl
    obtain hcaller | ⟨o', ho', hbefore⟩ := h.awaited l hl
    · obtain rfl | hcaller := mem_set_or x hi hcaller
      · exact Or.inr ⟨o, ho, fun hgood => Or.inl (hflag.mpr (Or.inr hgood))⟩
      · exact Or.inl hcaller
    · exact Or.inr ⟨o', ho', fun hgood => (hbefore hgood).imp_left fun hinitialized =>
        hflag.mpr (Or.inl hinitialized)⟩
  · intro l hl
    obtain ⟨i', hi'⟩ := List.mem_iff_getElem?.mp hl
    exact h.issued l (List.mem_of_getElem? (hset hi').2)
  · intro i₁ i₂ l₁ l₂ h₁ h₂ hlive₁ hlive₂
    exact h.alone i₁ i₂ l₁ l₂ (hset h₁).2 (hset h₂).2 hlive₁ hlive₂
  · intro hflagged l hl hlLive
    obtain ⟨i', hi'⟩ := List.mem_iff_getElem?.mp hl
    obtain hinitialized | hgood := hflag.mp hflagged
    · exact h.idle hinitialized l (List.mem_of_getElem? (hset hi').2) hlLive
    · -- the handshake that has succeeded was the only live one
      have hlive : Live c k := by
        intro o' ho'
        rw [ho] at ho'
        rw [← Option.some.inj ho']
        exact hgood
      exact (hset hi').1 (h.alone i' i l k (hset hi').2 hi hlLive hlive)
  · rintro (hflagged | hmem)
    · obtain hinitialized | hgood := hflag.mp hflagged
      · exact h.done (Or.inl hinitialized)
      · exact hdone hgood
    · obtain hmem | heq := List.mem_or_eq_of_mem_set hmem
      · exact h.done (Or.inr hmem)
      · exact hdone (hready heq.symm)

theorem finish_handshaking {c : Connection E} (h : Handshaking texts c) {i k : Nat}
    (hi : c.callers[i]? = some (.initializing k)) {o : Outcome Json (Failure E)}
    (ho : c.session.promise k = some o) : Handshaking texts (c.finish client i o) := by
  rw [finish]
  by_cases hgood : succeeded o = true
  · rw [if_pos hgood]
    apply set_handshaking h hi ho (fun l heq => by cases heq) (fun _ => hgood)
    simp [hgood]
  · rw [if_neg hgood]
    apply set_handshaking h hi ho (fun l heq => by cases heq) (fun heq => by cases heq)
    simp [hgood]

theorem step_handshaking {c : Connection E} (h : Handshaking texts c) {event : ConnectionEvent}
    (hpossible : Possible client c event) (horderly : Orderly c event) :
    Handshaking texts (step client c event) := by
  cases event with
  | call params sendThrows =>
    rw [step, call]
    by_cases hinitialized : c.initialized = true
    · rw [if_pos hinitialized]
      exact call_ready_handshaking h hinitialized
    · rw [if_neg hinitialized]
      rw [Bool.not_eq_true] at hinitialized
      exact call_request_handshaking client h params sendThrows hinitialized
        (horderly params sendThrows rfl hinitialized)
  | resume i =>
    rw [step, resume]
    split
    · next k hi =>
      split
      · next o ho => exact finish_handshaking client h hi ho
      · exact h
    · exact h
  | session event =>
    obtain ⟨hopen, hmethods⟩ := hpossible
    by_cases hclose : event = .close
    · subst hclose
      have hinitialized : (c.close client).initialized = true → c.initialized = true :=
        fun hflag => (Bool.and_eq_true_iff.mp hflag).2
      have hsession : (c.close client).session = c.session.step client.session .close := rfl
      exact session_handshaking client h hmethods hopen hsession rfl hinitialized fun _ =>
        Or.inr rfl
    · rw [step]
      · exact session_handshaking client h hmethods hopen rfl rfl id id
      · exact hclose

/-- A connection whose operations are called in order makes one handshake. -/
theorem orderly_oneHandshake {events : List ConnectionEvent}
    (hpossible : Serial.Meets (step client) (Possible client) new events)
    (horderly : Serial.Meets (step client) Orderly new events) :
    ∀ first second, events = first ++ second → OneHandshake (after client first) := by
  rintro first second rfl
  suffices h : Handshaking texts (after client first) from h.oneHandshake
  apply Serial.runAll_meeting (step client) (C := fun c event => Possible client c event ∧
    Orderly c event) (Handshaking texts) new_handshaking
  · intro c event h hboth
    exact step_handshaking client h hboth.1 hboth.2
  · intro before event rest hsplit
    exact ⟨hpossible.initial _ before event rest hsplit, horderly.initial _ before event rest hsplit⟩

end steps

/-- In both clients: while every operation is called after the handshake or after those before it
have failed, there is one handshake at a time and one that succeeds, and every caller that is
through follows it. -/
theorem one_handshake (texts : TemplateText) :
    (∀ (serverName : JsString) (requestTimeoutMs : Option JsNumber)
        (events : List ConnectionEvent),
      let client := mcpClient texts serverName requestTimeoutMs
      Serial.Meets (step client) (Possible client) new events →
        Serial.Meets (step client) Orderly new events →
          ∀ first second, events = first ++ second → OneHandshake (after client first)) ∧
    ∀ (requestTimeoutMs : Option JsNumber) (events : List ConnectionEvent),
      let client := lspClient texts requestTimeoutMs
      Serial.Meets (step client) (Possible client) new events →
        Serial.Meets (step client) Orderly new events →
          ∀ first second, events = first ++ second → OneHandshake (after client first) :=
  ⟨fun _ _ _ hpossible horderly => orderly_oneHandshake _ hpossible horderly,
    fun _ _ hpossible horderly => orderly_oneHandshake _ hpossible horderly⟩

/-- A second handshake after the first one's send has failed. -/
theorem one_handshake_again :
    let client := mcpClient plainText (js "s") none
    OneHandshake (after client [.call .null (some (.string (js "no"))), .resume 0,
      .call .null none]) := by
  intro client
  apply (one_handshake plainText).1 (js "s") none _ ?_ ?_ _ [] rfl
  · exact Serial.meets_cons _ trivial (Serial.meets_cons _ trivial (Serial.meets_cons _ trivial
      (Serial.meets_nil _)))
  · refine Serial.meets_cons _ ?_ (Serial.meets_cons _ ?_ (Serial.meets_cons _ ?_
      (Serial.meets_nil _)))
    · intro _ _ _ _ k hk
      cases hk
    · intro _ _ hevent
      cases hevent
    · intro _ _ _ _ k hk
      cases List.mem_singleton.mp hk

/-- Two callers that come before the first reply. -/
def twoCallers : List ConnectionEvent := [.call .null none, .call .null none]

theorem twoCallers_possible (client : LazyClient plainText E) :
    Serial.Meets (step client) (Possible client) new twoCallers :=
  Serial.meets_cons _ trivial (Serial.meets_cons _ trivial (Serial.meets_nil _))

theorem twoCallers_not_oneHandshake (client : LazyClient plainText E) :
    ¬ OneHandshake (after client twoCallers) := by
  intro h
  have hsame := h.outstanding 0 1 ⟨_, rfl, rfl⟩ ⟨_, rfl, rfl⟩ rfl rfl
  cases hsame

/-- Two callers make two handshakes in both clients. -/
theorem two_handshakes :
    (Serial.Meets (step (mcpClient plainText (js "s") none))
        (Possible (mcpClient plainText (js "s") none)) new twoCallers ∧
      ¬ OneHandshake (after (mcpClient plainText (js "s") none) twoCallers)) ∧
    Serial.Meets (step (lspClient plainText none)) (Possible (lspClient plainText none)) new
        twoCallers ∧
      ¬ OneHandshake (after (lspClient plainText none) twoCallers) :=
  ⟨⟨twoCallers_possible _, twoCallers_not_oneHandshake _⟩, twoCallers_possible _,
    twoCallers_not_oneHandshake _⟩

end Solarcido.Rpc.Connection
