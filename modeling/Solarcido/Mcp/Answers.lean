import Solarcido.Mcp.Replies

namespace Solarcido.Mcp.Server

open Text

/-- A response that the server gives to a value: its own, or that of the tool handler. -/
def Answers (spec : McpServerSpec) (value : Json) (response : JsonRpcResponse) : Prop :=
  handleInbound spec value = .answered response ∨
    ∃ id name arguments text isError, handleInbound spec value = .called id name arguments ∧
      response = ServerSession.toolResult id text isError

theorem Answers.id_eq {spec : McpServerSpec} {value id : Json} {response : JsonRpcResponse}
    (h : Answers spec value response) (hid : value.member (js "id") = some id) :
    response.id = id := by
  obtain ⟨response', hanswered, rfl⟩ | ⟨name, arguments, hcalled⟩ := handleInbound_with_id spec hid
  · obtain hkind | ⟨id', name, arguments, text, isError, hkind, -⟩ := h
    · rw [hanswered] at hkind
      rw [Handling.answered.inj hkind]
    · rw [hanswered] at hkind
      cases hkind
  · obtain hkind | ⟨id', name', arguments', text, isError, hkind, rfl⟩ := h
    · rw [hcalled] at hkind
      cases hkind
    · rw [hcalled] at hkind
      rw [(Handling.called.inj hkind).1]
      rfl

namespace ServerSession

variable (spec : McpServerSpec)

/-- The deliveries that have a reply or are with the tool handler. -/
def owned (s : ServerSession) : List Nat :=
  s.replies.map Prod.fst ++ s.calls.map ToolCall.delivery

/-- A session that has been handed some values: each reply is one to the value under its number,
no number has two, and an open session owes none to a request that it has neither answered nor
called a tool for. -/
structure Answering (values : List Json) (s : ServerSession) : Prop where
  delivered : s.delivered = values.length
  replies : ∀ reply ∈ s.replies, ∃ value, values[reply.1]? = some value ∧ Answers spec value reply.2
  calls : ∀ call ∈ s.calls, ∃ value, values[call.delivery]? = some value ∧
    handleInbound spec value = .called call.id call.name call.arguments
  once : s.owned.Nodup
  owed : s.closed = false → s.rejections = [] → ∀ i value id, values[i]? = some value →
    value.member (js "id") = some id → i ∈ s.owned

variable {spec} {values : List Json} {s : ServerSession}

theorem answering_new : Answering spec [] new := by
  refine ⟨rfl, ?_, ?_, List.nodup_nil, ?_⟩
  · intro reply h
    cases h
  · intro call h
    cases h
  · intro _ _ i value id h
    simp at h

/-- What is in use has a number below that of the next delivery. -/
theorem Answering.fresh (h : Answering spec values s) : s.delivered ∉ s.owned := by
  rw [h.delivered, owned, List.mem_append]
  have hbound : values[values.length]? = none := List.getElem?_eq_none (Nat.le_refl _)
  rintro (hmem | hmem)
  · obtain ⟨reply, hreply, heq⟩ := List.mem_map.mp hmem
    obtain ⟨value, hvalue, -⟩ := h.replies reply hreply
    rw [heq, hbound] at hvalue
    cases hvalue
  · obtain ⟨call, hcall, heq⟩ := List.mem_map.mp hmem
    obtain ⟨value, hvalue, -⟩ := h.calls call hcall
    rw [heq, hbound] at hvalue
    cases hvalue

theorem getElem?_snoc_of_some {α : Type} {l : List α} {i : Nat} {a b : α} (h : l[i]? = some a) :
    (l ++ [b])[i]? = some a := by
  obtain ⟨hlt, -⟩ := List.getElem?_eq_some_iff.mp h
  rw [List.getElem?_append_left hlt, h]

/-- A value has been handed over: what was there stays, and what is new has the new number. -/
theorem Answering.grow {s' : ServerSession} (h : Answering spec values s) (value : Json)
    (hdelivered : s'.delivered = s.delivered + 1)
    (hreplies : ∀ reply ∈ s'.replies,
      reply ∈ s.replies ∨ (reply.1 = s.delivered ∧ Answers spec value reply.2))
    (hcalls : ∀ call ∈ s'.calls, call ∈ s.calls ∨ (call.delivery = s.delivered ∧
      handleInbound spec value = .called call.id call.name call.arguments))
    (honce : s'.owned.Nodup) (hkept : ∀ i ∈ s.owned, i ∈ s'.owned)
    (hstill : s'.closed = false → s'.rejections = [] → s.closed = false ∧ s.rejections = [] ∧
      ∀ id, value.member (js "id") = some id → s.delivered ∈ s'.owned) :
    Answering spec (values ++ [value]) s' := by
  have hlast : (values ++ [value])[s.delivered]? = some value := by
    rw [h.delivered, List.getElem?_concat_length]
  refine ⟨?_, ?_, ?_, honce, ?_⟩
  · rw [hdelivered, h.delivered, List.length_append, List.length_singleton]
  · intro reply hreply
    obtain hold | ⟨hnew, hanswers⟩ := hreplies reply hreply
    · obtain ⟨value', hvalue, hanswers⟩ := h.replies reply hold
      exact ⟨value', getElem?_snoc_of_some hvalue, hanswers⟩
    · rw [hnew]
      exact ⟨value, hlast, hanswers⟩
  · intro call hcall
    obtain hold | ⟨hnew, hcalled⟩ := hcalls call hcall
    · obtain ⟨value', hvalue, hcalled⟩ := h.calls call hold
      exact ⟨value', getElem?_snoc_of_some hvalue, hcalled⟩
    · rw [hnew]
      exact ⟨value, hlast, hcalled⟩
  · intro hclosed hrejections i value' id hvalue hid
    obtain ⟨hopen, hnone, hown⟩ := hstill hclosed hrejections
    by_cases hi : i < values.length
    · rw [List.getElem?_append_left hi] at hvalue
      exact hkept i (h.owed hopen hnone i value' id hvalue hid)
    · have hlen := (List.getElem?_eq_some_iff.mp hvalue).1
      rw [List.length_append, List.length_singleton] at hlen
      have hi' : i = s.delivered := by
        rw [h.delivered]
        omega
      subst hi'
      rw [hlast] at hvalue
      obtain rfl := Option.some.inj hvalue
      exact hown id hid

theorem Answering.message (h : Answering spec values s) (value : Json) :
    Answering spec (values ++ [value]) (step spec s (.message value)) := by
  have hfresh := h.fresh
  rw [step]
  cases hkind : handleInbound spec value with
  | ignored =>
    refine h.grow value rfl (fun _ => Or.inl) (fun _ => Or.inl) h.once (fun _ hi => hi) ?_
    intro hclosed hrejections
    refine ⟨hclosed, hrejections, fun id hid => ?_⟩
    obtain ⟨response, hanswered, -⟩ | ⟨name, arguments, hcalled⟩ := handleInbound_with_id spec hid
    · rw [hanswered] at hkind
      cases hkind
    · rw [hcalled] at hkind
      cases hkind
  | rejected =>
    refine h.grow value rfl (fun _ => Or.inl) (fun _ => Or.inl) h.once (fun _ hi => hi) ?_
    intro _ hrejections
    simp [handled, reject] at hrejections
  | answered response =>
    by_cases hclosed : s.deliver.closed = true
    · have hsame : s.deliver.handled s.delivered (.answered response) = s.deliver := by
        rw [handled, reply, if_pos hclosed]
      rw [hsame]
      refine h.grow value rfl (fun _ => Or.inl) (fun _ => Or.inl) h.once (fun _ hi => hi) ?_
      intro hopen
      rw [hopen] at hclosed
      cases hclosed
    · have hreplied : s.deliver.handled s.delivered (.answered response) =
          { s.deliver with replies := s.replies ++ [(s.delivered, response)] } := by
        rw [handled, reply, if_neg hclosed]
        rfl
      have howned : ({ s.deliver with replies := s.replies ++ [(s.delivered, response)] } :
          ServerSession).owned.Perm (s.delivered :: s.owned) := by
        simp only [owned, deliver, List.map_append, List.map_cons, List.map_nil, List.append_assoc]
        exact List.perm_middle
      rw [hreplied]
      refine h.grow value rfl ?_ (fun _ => Or.inl) ?_ ?_ ?_
      · intro reply hreply
        obtain hold | hnew := List.mem_append.mp hreply
        · exact Or.inl hold
        · rw [List.mem_singleton.mp hnew]
          exact Or.inr ⟨rfl, Or.inl hkind⟩
      · exact howned.nodup_iff.mpr (List.nodup_cons.mpr ⟨hfresh, h.once⟩)
      · intro i hi
        exact howned.mem_iff.mpr (List.mem_cons_of_mem _ hi)
      · intro hopen hrejections
        exact ⟨hopen, hrejections, fun id _ => howned.mem_iff.mpr List.mem_cons_self⟩
  | called id name arguments =>
    have howned : (s.deliver.handled s.delivered (.called id name arguments)).owned.Perm
        (s.delivered :: s.owned) := by
      simp only [handled, owned, deliver, List.map_append, List.map_cons, List.map_nil]
      rw [← List.append_assoc]
      exact List.perm_append_singleton _ _
    refine h.grow value rfl (fun _ => Or.inl) ?_ ?_ ?_ ?_
    · intro call hcall
      obtain hold | hnew := List.mem_append.mp hcall
      · exact Or.inl hold
      · rw [List.mem_singleton.mp hnew]
        exact Or.inr ⟨rfl, hkind⟩
    · exact howned.nodup_iff.mpr (List.nodup_cons.mpr ⟨hfresh, h.once⟩)
    · intro i hi
      exact howned.mem_iff.mpr (List.mem_cons_of_mem _ hi)
    · intro hopen hrejections
      exact ⟨hopen, hrejections, fun id _ => howned.mem_iff.mpr List.mem_cons_self⟩

theorem owned_endCall (s : ServerSession) (i : Nat) :
    (s.endCall i).owned.Sublist s.owned := by
  apply List.Sublist.append_left
  exact List.filter_sublist.map ToolCall.delivery

/-- The reply of a call stands under the number of the call, which is with the handler no longer. -/
theorem owned_ended {call : ToolCall} (hcall : call ∈ s.calls) (honce : s.owned.Nodup)
    (response : JsonRpcResponse) :
    let s' := { s.endCall call.delivery with
      replies := s.replies ++ [(call.delivery, response)] }
    s'.owned.Nodup ∧ ∀ i ∈ s.owned, i ∈ s'.owned := by
  have hmem : call.delivery ∈ s.calls.map ToolCall.delivery := List.mem_map_of_mem hcall
  obtain ⟨hreplies, -, hdisjoint⟩ := List.nodup_append.mp honce
  simp only [owned, endCall, List.map_append, List.map_cons, List.map_nil, List.append_assoc]
  refine ⟨?_, ?_⟩
  · have hended := (owned_endCall s call.delivery).nodup honce
    rw [owned] at hended
    refine (List.perm_middle.nodup_iff).mpr (List.nodup_cons.mpr ⟨?_, hended⟩)
    rw [List.mem_append]
    rintro (hreply | hleft)
    · exact hdisjoint _ hreply _ hmem rfl
    · obtain ⟨call', hfiltered, heq⟩ := List.mem_map.mp hleft
      have hne := (List.mem_filter.mp hfiltered).2
      simp [heq] at hne
  · intro i hi
    obtain hreply | hleft := List.mem_append.mp hi
    · exact List.mem_append_left _ hreply
    · obtain ⟨call', hcall', rfl⟩ := List.mem_map.mp hleft
      by_cases hsame : call'.delivery = call.delivery
      · rw [hsame]
        simp
      · refine List.mem_append_right _ (List.mem_cons_of_mem _ ?_)
        exact List.mem_map_of_mem (List.mem_filter.mpr ⟨hcall', by simpa using hsame⟩)

theorem Answering.reply (h : Answering spec values s) {call : ToolCall} (hcall : call ∈ s.calls)
    (text : JsString) (isError : Bool) :
    Answering spec values
      ((s.endCall call.delivery).reply call.delivery (toolResult call.id text isError)) := by
  have hsub {call' : ToolCall} (hmem : call' ∈ (s.endCall call.delivery).calls) :
      call' ∈ s.calls := (List.mem_filter.mp hmem).1
  by_cases hclosed : (s.endCall call.delivery).closed = true
  · rw [ServerSession.reply, if_pos hclosed]
    refine ⟨h.delivered, h.replies, fun call' hmem => h.calls call' (hsub hmem), ?_, ?_⟩
    · exact (owned_endCall s call.delivery).nodup h.once
    · intro hopen
      rw [hopen] at hclosed
      cases hclosed
  · rw [ServerSession.reply, if_neg hclosed]
    obtain ⟨honce, hkept⟩ := owned_ended hcall h.once (toolResult call.id text isError)
    refine ⟨h.delivered, ?_, fun call' hmem => h.calls call' (hsub hmem), honce, ?_⟩
    · intro reply hreply
      obtain hold | hnew := List.mem_append.mp hreply
      · exact h.replies reply hold
      · obtain ⟨value, hvalue, hcalled⟩ := h.calls call hcall
        rw [List.mem_singleton.mp hnew]
        exact ⟨value, hvalue, Or.inr ⟨_, _, _, text, isError, hcalled, rfl⟩⟩
    · intro hopen hrejections i value id hvalue hid
      exact hkept i (h.owed hopen hrejections i value id hvalue hid)

theorem Answering.toolDone (h : Answering spec values s) (i : Nat) (outcome : ToolOutcome) :
    Answering spec values (s.toolDone i outcome) := by
  rw [ServerSession.toolDone]
  cases hfind : s.calls.find? fun call => call.delivery = i with
  | none => exact h
  | some call =>
    have hcall := List.mem_of_find?_eq_some hfind
    have hdelivery : call.delivery = i := by simpa using List.find?_some hfind
    subst hdelivery
    cases outcome with
    | returned text isError => exact h.reply hcall text (isError.getD false)
    | threw error => exact h.reply hcall error.messageOf true
    | threwUnprintable =>
      refine ⟨h.delivered, h.replies, ?_, (owned_endCall s call.delivery).nodup h.once, ?_⟩
      · intro call' hmem
        exact h.calls call' (List.mem_filter.mp hmem).1
      · intro _ hrejections
        simp [reject] at hrejections

theorem Answering.close (h : Answering spec values s) :
    Answering spec values (step spec s .close) := by
  refine ⟨h.delivered, h.replies, h.calls, h.once, ?_⟩
  intro hopen
  cases hopen

theorem reply_grows (i : Nat) (response : JsonRpcResponse) (s : ServerSession) :
    s.replies ⊆ (s.reply i response).replies := by
  rw [ServerSession.reply]
  split
  · exact List.Subset.refl _
  · exact List.subset_append_left _ _

theorem step_grows (spec : McpServerSpec) (s : ServerSession) (event : ServerEvent) :
    s.replies ⊆ (step spec s event).replies := by
  cases event with
  | message value =>
    rw [step]
    cases handleInbound spec value with
    | ignored => exact List.Subset.refl _
    | rejected => exact List.Subset.refl _
    | answered response => exact reply_grows _ _ s.deliver
    | called id name arguments => exact List.Subset.refl _
  | parseError error => exact reply_grows _ _ s.deliver
  | toolDone i outcome =>
    rw [step, ServerSession.toolDone]
    split
    · exact List.Subset.refl _
    · cases outcome with
      | returned text isError => exact reply_grows _ _ (s.endCall i)
      | threw error => exact reply_grows _ _ (s.endCall i)
      | threwUnprintable => exact List.Subset.refl _
  | close => exact List.Subset.refl _

end ServerSession

end Solarcido.Mcp.Server
