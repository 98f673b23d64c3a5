import Solarcido.Mcp.Server

namespace Solarcido.Mcp.Server

open Text

section handling

variable (spec : McpServerSpec)

/-- Objects and arrays have members to ask for. -/
def hasMembers : Json → Bool
  | .obj _ => true
  | .arr _ => true
  | _ => false

theorem handleToolsCall_kind (id : Json) (params : Option Json) :
    (∃ response, handleToolsCall id params = .answered response ∧ response.id = id) ∨
      ∃ name arguments, handleToolsCall id params = .called id name arguments := by
  match params with
  | none => exact Or.inl ⟨_, rfl, rfl⟩
  | some .null => exact Or.inl ⟨_, rfl, rfl⟩
  | some (.bool b) => exact Or.inl ⟨_, rfl, rfl⟩
  | some (.num n) => exact Or.inl ⟨_, rfl, rfl⟩
  | some (.str s) => exact Or.inl ⟨_, rfl, rfl⟩
  | some (.arr items) => exact Or.inl ⟨_, rfl, rfl⟩
  | some (.obj members) =>
    have hobject : (Json.obj members).isObject = true := rfl
    simp only [handleToolsCall, hobject, if_true]
    split
    · exact Or.inr ⟨_, _, rfl⟩
    · exact Or.inl ⟨_, rfl, rfl⟩

theorem dispatch_kind (id : Json) (method : JsString) (params : Option Json) :
    (∃ response, dispatch spec id method params = .answered response ∧ response.id = id) ∨
      ∃ name arguments, dispatch spec id method params = .called id name arguments := by
  rw [dispatch]
  split
  · exact Or.inl ⟨_, rfl, rfl⟩
  · split
    · exact Or.inl ⟨_, rfl, rfl⟩
    · split
      · exact handleToolsCall_kind id params
      · exact Or.inl ⟨_, rfl, rfl⟩

/-- An object with an id is answered under that id, at once or when the tool handler is done. -/
theorem handleInbound_with_id {value id : Json} (h : value.member (js "id") = some id) :
    (∃ response, handleInbound spec value = .answered response ∧ response.id = id) ∨
      ∃ name arguments, handleInbound spec value = .called id name arguments := by
  cases value with
  | obj members =>
    simp only [handleInbound, h]
    split
    · split
      · exact dispatch_kind spec id _ _
      · exact Or.inl ⟨_, rfl, rfl⟩
    · exact Or.inl ⟨_, rfl, rfl⟩
  | null => cases h
  | bool b => cases h
  | num n => cases h
  | str s => cases h
  | arr items => cases h

theorem handleInbound_without_id {value : Json} (hmembers : hasMembers value = true)
    (h : value.member (js "id") = none) : handleInbound spec value = .ignored := by
  cases value with
  | obj members => simp only [handleInbound, h]
  | arr items => rfl
  | null => cases hmembers
  | bool b => cases hmembers
  | num n => cases hmembers
  | str s => cases hmembers

theorem handleInbound_rejected_iff (value : Json) :
    handleInbound spec value = .rejected ↔ hasMembers value = false := by
  cases hmembers : hasMembers value with
  | true =>
    have hnot : handleInbound spec value ≠ .rejected := by
      cases hid : value.member (js "id") with
      | none =>
        rw [handleInbound_without_id spec hmembers hid]
        intro h
        cases h
      | some id =>
        obtain ⟨response, h, -⟩ | ⟨name, arguments, h⟩ := handleInbound_with_id spec hid
        · rw [h]
          intro h
          cases h
        · rw [h]
          intro h
          cases h
    simp [hnot]
  | false =>
    cases value with
    | null => simp [handleInbound]
    | bool b => simp [handleInbound]
    | num n => simp [handleInbound]
    | str s => simp [handleInbound]
    | arr items => cases hmembers
    | obj members => cases hmembers

theorem hasMembers_of_not_rejected {value : Json} (h : handleInbound spec value ≠ .rejected) :
    hasMembers value = true := by
  rw [ne_eq, handleInbound_rejected_iff, Bool.not_eq_false] at h
  exact h

end handling

namespace ServerSession

variable (spec : McpServerSpec)

/-- Every value has members, and no tool handler throws a value without a text. -/
def Printable (s : ServerSession) (event : ServerEvent) : Prop :=
  (∀ value, event = .message value → hasMembers value = true) ∧
    ∀ i, event = .toolDone i .threwUnprintable → ∀ call ∈ s.calls, call.delivery ≠ i

/-- The reply to a delivery has come, or the tool handler is still at it. -/
def Answered (s : ServerSession) (i : Nat) (id : Json) : Prop :=
  (∃ response, s.repliesTo i = [response] ∧ response.id = id ∧ s.callsFor i = []) ∨
    ∃ call, s.repliesTo i = [] ∧ s.callsFor i = [call] ∧ call.id = id

/-- Every request gets one reply, under its own id, once its tool handler is done; an object
without an id gets none; no handling is rejected. -/
structure AnswersAll (events : List ServerEvent) : Prop where
  requests : ∀ before value rest id method, events = before ++ .message value :: rest →
    value.member (js "id") = some id → value.member (js "method") = some (.str method) →
      Answered (after spec events) (deliveries before) id
  others : ∀ before value rest, events = before ++ .message value :: rest →
    value.isObject = true → value.member (js "id") = none →
      (after spec events).repliesTo (deliveries before) = []
  rejections : (after spec events).rejections = []

section rejections

theorem reply_rejections (i : Nat) (response : JsonRpcResponse) (s : ServerSession) :
    (s.reply i response).rejections = s.rejections := by
  rw [reply]
  split
  · rfl
  · rfl

theorem printable_message (s : ServerSession) (value : Json) :
    Printable s (.message value) ↔ hasMembers value = true := by
  constructor
  · intro h
    exact h.1 value rfl
  · intro h
    refine ⟨?_, ?_⟩
    · intro value' heq
      rw [← ServerEvent.message.inj heq]
      exact h
    · intro i heq
      cases heq

theorem step_message_rejections (s : ServerSession) (value : Json) :
    (step spec s (.message value)).rejections = [] ↔
      s.rejections = [] ∧ hasMembers value = true := by
  rw [step]
  cases hkind : handleInbound spec value with
  | rejected =>
    rw [(handleInbound_rejected_iff spec value).mp hkind]
    simp [handled, reject]
  | ignored =>
    have hmembers : hasMembers value = true :=
      hasMembers_of_not_rejected spec (by simp [hkind])
    simp [handled, deliver, hmembers]
  | answered response =>
    have hmembers : hasMembers value = true :=
      hasMembers_of_not_rejected spec (by simp [hkind])
    simp [handled, reply_rejections, deliver, hmembers]
  | called id name arguments =>
    have hmembers : hasMembers value = true :=
      hasMembers_of_not_rejected spec (by simp [hkind])
    simp [handled, deliver, hmembers]

theorem printable_toolDone (s : ServerSession) (i : Nat) {outcome : ToolOutcome}
    (h : outcome ≠ .threwUnprintable ∨ s.calls.find? (fun call => call.delivery = i) = none) :
    Printable s (.toolDone i outcome) := by
  refine ⟨fun _ heq => by (cases heq), ?_⟩
  intro j heq call hcall
  obtain ⟨rfl, rfl⟩ := ServerEvent.toolDone.inj heq
  obtain hne | hnone := h
  · exact absurd rfl hne
  · simpa using List.find?_eq_none.mp hnone call hcall

theorem step_toolDone_rejections (s : ServerSession) (i : Nat) (outcome : ToolOutcome) :
    (step spec s (.toolDone i outcome)).rejections = [] ↔
      s.rejections = [] ∧ Printable s (.toolDone i outcome) := by
  rw [step, toolDone]
  cases hfind : s.calls.find? fun call => call.delivery = i with
  | none =>
    have hprintable : Printable s (.toolDone i outcome) := printable_toolDone s i (Or.inr hfind)
    simp [hprintable]
  | some call =>
    cases outcome with
    | returned text isError =>
      have hprintable : Printable s (.toolDone i (.returned text isError)) :=
        printable_toolDone s i (Or.inl (by simp))
      simp [reply_rejections, endCall, hprintable]
    | threw error =>
      have hprintable : Printable s (.toolDone i (.threw error)) :=
        printable_toolDone s i (Or.inl (by simp))
      simp [reply_rejections, endCall, hprintable]
    | threwUnprintable =>
      have hcall : call.delivery = i := by simpa using List.find?_some hfind
      have hprintable : ¬ Printable s (.toolDone i .threwUnprintable) := fun h =>
        h.2 i rfl call (List.mem_of_find?_eq_some hfind) hcall
      simp [reject, hprintable]

theorem step_rejections (s : ServerSession) (event : ServerEvent) :
    (step spec s event).rejections = [] ↔ s.rejections = [] ∧ Printable s event := by
  cases event with
  | message value => rw [step_message_rejections, printable_message]
  | toolDone i outcome => exact step_toolDone_rejections spec s i outcome
  | parseError error =>
    have hprintable : Printable s (.parseError error) :=
      ⟨fun _ h => by (cases h), fun _ h => by (cases h)⟩
    simp [step, reply_rejections, deliver, hprintable]
  | close =>
    have hprintable : Printable s .close :=
      ⟨fun _ h => by (cases h), fun _ h => by (cases h)⟩
    simp [step, hprintable]

/-- No handling is rejected if and only if every event is printable. -/
theorem rejections_iff (events : List ServerEvent) :
    (after spec events).rejections = [] ↔ Serial.Meets (step spec) Printable new events := by
  induction events using List.reverseRecOn with
  | nil => simp [after, new, Serial.meets_nil]
  | append_singleton events event ih =>
    rw [Serial.meets_snoc, ← ih, after, Serial.runAll_snoc, step_rejections]
    rfl

end rejections

section answers

theorem reply_of_open {s : ServerSession} (h : s.closed = false) (i : Nat)
    (response : JsonRpcResponse) :
    s.reply i response = { s with replies := s.replies ++ [(i, response)] } := by
  rw [reply, h]
  rfl

theorem repliesTo_reply_self {s : ServerSession} (h : s.closed = false) (i : Nat)
    (response : JsonRpcResponse) : (s.reply i response).repliesTo i = s.repliesTo i ++ [response] := by
  rw [reply_of_open h, repliesTo, repliesTo]
  simp

theorem repliesTo_reply_of_ne {s : ServerSession} (h : s.closed = false) {i j : Nat} (hij : i ≠ j)
    (response : JsonRpcResponse) : (s.reply i response).repliesTo j = s.repliesTo j := by
  rw [reply_of_open h, repliesTo, repliesTo]
  simp [hij]

theorem callsFor_reply (s : ServerSession) (i j : Nat) (response : JsonRpcResponse) :
    (s.reply i response).callsFor j = s.callsFor j := by
  rw [reply]
  split
  · rfl
  · rfl

theorem callsFor_endCall_self (s : ServerSession) (i : Nat) : (s.endCall i).callsFor i = [] := by
  rw [endCall, callsFor]
  simp

theorem callsFor_endCall_of_ne (s : ServerSession) {i j : Nat} (hij : i ≠ j) :
    (s.endCall i).callsFor j = s.callsFor j := by
  simp only [endCall, callsFor, List.filter_filter]
  apply List.filter_congr
  intro call _
  by_cases hj : call.delivery = j
  · simp [hj, Ne.symm hij]
  · simp [hj]

/-- What has been done for a value delivered under a number. -/
def Served (s : ServerSession) (i : Nat) : Handling → Prop
  | .answered response => s.repliesTo i = [response] ∧ s.callsFor i = []
  | .called id name arguments =>
    (∃ response, s.repliesTo i = [response] ∧ response.id = id ∧ s.callsFor i = []) ∨
      (s.repliesTo i = [] ∧ s.callsFor i = [⟨i, id, name, arguments⟩])
  | .ignored => s.repliesTo i = [] ∧ s.callsFor i = []
  | .rejected => s.repliesTo i = [] ∧ s.callsFor i = []

theorem Served.congr {s s' : ServerSession} {i : Nat} {kind : Handling} (h : Served s i kind)
    (hreplies : s'.repliesTo i = s.repliesTo i) (hcalls : s'.callsFor i = s.callsFor i) :
    Served s' i kind := by
  cases kind with
  | ignored => rwa [Served, hreplies, hcalls]
  | rejected => rwa [Served, hreplies, hcalls]
  | answered response => rwa [Served, hreplies, hcalls]
  | called id name arguments => rwa [Served, hreplies, hcalls]

/-- An open session after some events: the numbers in use are those of its deliveries, and each
value has been served. -/
structure Serving (events : List ServerEvent) (s : ServerSession) : Prop where
  isOpen : s.closed = false
  delivered : s.delivered = deliveries events
  replies : ∀ reply ∈ s.replies, reply.1 < s.delivered
  calls : ∀ call ∈ s.calls, call.delivery < s.delivered
  served : ∀ before value rest, events = before ++ .message value :: rest →
    Served s (deliveries before) (handleInbound spec value)

variable {spec}

theorem new_serving : Serving spec [] new where
  isOpen := rfl
  delivered := rfl
  replies := by
    intro reply h
    simp [new] at h
  calls := by
    intro call h
    simp [new] at h
  served := by
    intro before value rest h
    simp at h

theorem Serving.fresh {events : List ServerEvent} {s : ServerSession} (h : Serving spec events s) :
    s.repliesTo s.delivered = [] ∧ s.callsFor s.delivered = [] := by
  constructor
  · rw [repliesTo, List.map_eq_nil_iff, List.filter_eq_nil_iff]
    intro reply hreply
    have hlt := h.replies reply hreply
    simp only [decide_eq_true_eq]
    omega
  · rw [callsFor, List.filter_eq_nil_iff]
    intro call hcall
    have hlt := h.calls call hcall
    simp only [decide_eq_true_eq]
    omega

theorem deliveries_snoc (events : List ServerEvent) (event : ServerEvent) :
    deliveries (events ++ [event]) = deliveries events + if isDelivery event then 1 else 0 := by
  rw [deliveries, List.countP_append, List.countP_singleton, deliveries]

/-- Every delivery before the end has a number in use. -/
theorem deliveries_lt {events before rest : List ServerEvent} {value : Json}
    (h : events = before ++ .message value :: rest) : deliveries before < deliveries events := by
  rw [h, deliveries, deliveries, List.countP_append, List.countP_cons_of_pos rfl]
  omega

/-- A reply under a new number. -/
theorem Serving.answer {events : List ServerEvent} {s : ServerSession} (h : Serving spec events s)
    {event : ServerEvent} (hdelivery : isDelivery event = true) (response : JsonRpcResponse)
    (hserved : ∀ value, event = .message value → handleInbound spec value = .answered response) :
    Serving spec (events ++ [event]) (s.deliver.reply s.delivered response) := by
  have hopen : s.deliver.closed = false := h.isOpen
  have hfresh := h.fresh
  refine ⟨?_, ?_, ?_, ?_, ?_⟩
  · rw [reply_of_open hopen]
    exact hopen
  · rw [reply_of_open hopen, deliveries_snoc, hdelivery]
    simp only [deliver, h.delivered, if_true]
  · rw [reply_of_open hopen]
    intro reply hreply
    simp only [deliver] at hreply ⊢
    obtain hreply | hreply := List.mem_append.mp hreply
    · exact Nat.lt_succ_of_lt (h.replies reply hreply)
    · rw [List.mem_singleton.mp hreply]
      exact Nat.lt_succ_self _
  · rw [reply_of_open hopen]
    intro call hcall
    exact Nat.lt_succ_of_lt (h.calls call hcall)
  · intro before value rest hsplit
    obtain ⟨rfl, rfl, rfl⟩ | ⟨rest', rfl, hevents⟩ := Serial.split_snoc hsplit
    · rw [hserved value rfl, ← h.delivered, Served, repliesTo_reply_self hopen, callsFor_reply]
      exact ⟨by rw [show s.deliver.repliesTo s.delivered = [] from hfresh.1, List.nil_append],
        hfresh.2⟩
    · have hlt := deliveries_lt hevents
      rw [← h.delivered] at hlt
      apply (h.served before value rest' hevents).congr
      · exact repliesTo_reply_of_ne hopen (Nat.ne_of_gt hlt) response
      · exact callsFor_reply _ _ _ _

/-- A value that gets no reply at once: nothing is done for it, or the tool handler is called. -/
theorem Serving.defer {events : List ServerEvent} {s s' : ServerSession} {value : Json}
    (h : Serving spec events s) (hdelivered : s'.delivered = s.delivered + 1)
    (hclosed : s'.closed = s.closed) (hreplies : s'.replies = s.replies)
    (hcalls : ∀ call ∈ s'.calls, call ∈ s.calls ∨ call.delivery = s.delivered)
    (hcallsFor : ∀ i, i < s.delivered → s'.callsFor i = s.callsFor i)
    (hserved : Served s' s.delivered (handleInbound spec value)) :
    Serving spec (events ++ [.message value]) s' := by
  refine ⟨?_, ?_, ?_, ?_, ?_⟩
  · rw [hclosed]
    exact h.isOpen
  · rw [hdelivered, h.delivered, deliveries_snoc]
    rfl
  · rw [hreplies, hdelivered]
    intro reply hreply
    exact Nat.lt_succ_of_lt (h.replies reply hreply)
  · rw [hdelivered]
    intro call hcall
    obtain hcall | hcall := hcalls call hcall
    · exact Nat.lt_succ_of_lt (h.calls call hcall)
    · omega
  · intro before value' rest hsplit
    obtain ⟨rfl, heq, rfl⟩ | ⟨rest', rfl, hevents⟩ := Serial.split_snoc hsplit
    · rw [ServerEvent.message.inj heq, ← h.delivered]
      exact hserved
    · have hlt := deliveries_lt hevents
      rw [← h.delivered] at hlt
      apply (h.served before value' rest' hevents).congr
      · rw [repliesTo, repliesTo, hreplies]
      · exact hcallsFor _ hlt

theorem Serving.message {events : List ServerEvent} {s : ServerSession}
    (h : Serving spec events s) (value : Json) :
    Serving spec (events ++ [.message value]) (step spec s (.message value)) := by
  have hfresh := h.fresh
  rw [step]
  cases hkind : handleInbound spec value with
  | answered response =>
    apply h.answer rfl response
    intro value' heq
    rw [← ServerEvent.message.inj heq]
    exact hkind
  | ignored =>
    refine h.defer rfl rfl rfl (fun _ hcall => Or.inl hcall) (fun _ _ => rfl) ?_
    rw [hkind]
    exact hfresh
  | rejected =>
    refine h.defer rfl rfl rfl (fun _ hcall => Or.inl hcall) (fun _ _ => rfl) ?_
    rw [hkind]
    exact hfresh
  | called id name arguments =>
    refine h.defer rfl rfl rfl ?_ ?_ ?_
    · intro call hcall
      obtain hcall | hcall := List.mem_append.mp hcall
      · exact Or.inl hcall
      · rw [List.mem_singleton.mp hcall]
        exact Or.inr rfl
    · intro i hi
      have hne : s.delivered ≠ i := Nat.ne_of_gt hi
      simp [callsFor, handled, deliver, hne]
    · rw [hkind]
      refine Or.inr ⟨hfresh.1, ?_⟩
      have hnone := hfresh.2
      simp only [callsFor, handled, deliver] at hnone ⊢
      rw [List.filter_append, hnone]
      simp

theorem toolDone_effect {s : ServerSession} {i : Nat} {outcome : ToolOutcome}
    (h : Printable s (.toolDone i outcome)) :
    s.toolDone i outcome = s ∨ ∃ call response, call ∈ s.calls ∧ call.delivery = i ∧
      response.id = call.id ∧ s.toolDone i outcome = (s.endCall i).reply i response := by
  rw [toolDone]
  cases hfind : s.calls.find? fun call => call.delivery = i with
  | none => exact Or.inl rfl
  | some call =>
    have hmem := List.mem_of_find?_eq_some hfind
    have hcall : call.delivery = i := by simpa using List.find?_some hfind
    cases outcome with
    | returned text isError => exact Or.inr ⟨call, _, hmem, hcall, rfl, rfl⟩
    | threw error => exact Or.inr ⟨call, _, hmem, hcall, rfl, rfl⟩
    | threwUnprintable => exact absurd hcall (h.2 i rfl call hmem)

/-- The reply of a call of the tool handler takes the place of the call. -/
theorem Served.done {s : ServerSession} (hopen : s.closed = false) {i : Nat} {kind : Handling}
    (h : Served s i kind) {call : ToolCall} (hcall : call ∈ s.callsFor i)
    {response : JsonRpcResponse} (hid : response.id = call.id) :
    Served ((s.endCall i).reply i response) i kind := by
  have hended : (s.endCall i).closed = false := hopen
  cases kind with
  | answered response' =>
    rw [h.2] at hcall
    cases hcall
  | ignored =>
    rw [h.2] at hcall
    cases hcall
  | rejected =>
    rw [h.2] at hcall
    cases hcall
  | called id name arguments =>
    obtain ⟨response', -, -, hnone⟩ | ⟨hreplies, hcalls⟩ := h
    · rw [hnone] at hcall
      cases hcall
    · rw [hcalls] at hcall
      obtain rfl := List.mem_singleton.mp hcall
      refine Or.inl ⟨response, ?_, hid, ?_⟩
      · rw [repliesTo_reply_self hended, show (s.endCall i).repliesTo i = [] from hreplies,
          List.nil_append]
      · rw [callsFor_reply, callsFor_endCall_self]

theorem Serving.toolDone {events : List ServerEvent} {s : ServerSession}
    (h : Serving spec events s) {i : Nat} {outcome : ToolOutcome}
    (hprintable : Printable s (.toolDone i outcome)) :
    Serving spec (events ++ [.toolDone i outcome]) (step spec s (.toolDone i outcome)) := by
  have hsplit {before rest : List ServerEvent} {value : Json}
      (hevents : events ++ [.toolDone i outcome] = before ++ .message value :: rest) :
      ∃ rest', events = before ++ .message value :: rest' := by
    obtain ⟨-, heq, -⟩ | ⟨rest', -, hevents⟩ := Serial.split_snoc hevents
    · cases heq
    · exact ⟨rest', hevents⟩
  have hdelivered : s.delivered = deliveries (events ++ [.toolDone i outcome]) := by
    rw [deliveries_snoc, ← h.delivered]
    rfl
  rw [step]
  obtain hsame | ⟨call, response, hmem, rfl, hid, hdone⟩ := toolDone_effect hprintable
  · rw [hsame]
    refine ⟨h.isOpen, hdelivered, h.replies, h.calls, ?_⟩
    intro before value rest hevents
    obtain ⟨rest', hevents⟩ := hsplit hevents
    exact h.served before value rest' hevents
  · rw [hdone]
    have hended : (s.endCall call.delivery).closed = false := h.isOpen
    refine ⟨?_, ?_, ?_, ?_, ?_⟩
    · rw [reply_of_open hended]
      exact h.isOpen
    · rw [reply_of_open hended]
      exact hdelivered
    · rw [reply_of_open hended]
      intro reply hreply
      obtain hreply | hreply := List.mem_append.mp hreply
      · exact h.replies reply hreply
      · rw [List.mem_singleton.mp hreply]
        exact h.calls call hmem
    · rw [reply_of_open hended]
      intro call' hcall'
      exact h.calls call' (List.mem_filter.mp hcall').1
    · intro before value rest hevents
      obtain ⟨rest', hevents⟩ := hsplit hevents
      have hserved := h.served before value rest' hevents
      by_cases hsame : call.delivery = deliveries before
      · rw [hsame]
        apply hserved.done h.isOpen _ hid
        rw [callsFor, ← hsame]
        exact List.mem_filter.mpr ⟨hmem, by simp⟩
      · apply hserved.congr
        · rw [repliesTo_reply_of_ne hended hsame]
          rfl
        · rw [callsFor_reply, callsFor_endCall_of_ne _ hsame]

/-- An open session serves every value it is handed. -/
theorem after_serving {events : List ServerEvent} (hopen : .close ∉ events)
    (h : Serial.Meets (step spec) Printable new events) :
    Serving spec events (after spec events) := by
  induction events using List.reverseRecOn with
  | nil => exact new_serving
  | append_singleton events event ih =>
    rw [Serial.meets_snoc] at h
    have hbefore := ih (fun hmem => hopen (List.mem_append_left _ hmem)) h.1
    rw [after, Serial.runAll_snoc]
    cases event with
    | message value => exact hbefore.message value
    | parseError error =>
      exact hbefore.answer rfl _ fun value heq => by cases heq
    | toolDone i outcome => exact hbefore.toolDone h.2
    | close => exact absurd (List.mem_append_right _ List.mem_cons_self) hopen

/-- What is served is answered, if it is a request. -/
theorem Served.answered {s : ServerSession} {i : Nat} {value id : Json}
    (h : Served s i (handleInbound spec value)) (hid : value.member (js "id") = some id) :
    Answered s i id := by
  obtain ⟨response, hkind, hresponse⟩ | ⟨name, arguments, hkind⟩ :=
    handleInbound_with_id spec hid
  · rw [hkind] at h
    exact Or.inl ⟨response, h.1, hresponse, h.2⟩
  · rw [hkind] at h
    obtain hdone | ⟨hreplies, hcalls⟩ := h
    · exact Or.inl hdone
    · exact Or.inr ⟨_, hreplies, hcalls, rfl⟩

end answers

end ServerSession

end Solarcido.Mcp.Server
