import Solarcido.Lib.ThrowingProgram
import Solarcido.Rpc.Connection

namespace Solarcido.Mcp.Client

open Text Rpc ThrowingProgram

section operations

/-- A server behind its transport: what comes of a request, by its method and its parameters. -/
abbrev Peer (σ : Type) := JsString → Json → σ → Except (Failure McpClientError) Json × σ

/-- A session whose operations are made one at a time, with the requests it has sent. -/
structure SessionState (σ : Type) where
  initialized : Bool
  sent : List (JsString × Json)
  server : σ

abbrev Operation (σ : Type) := EStateM (Failure McpClientError) (SessionState σ)

variable {σ : Type} (texts : TemplateText) (serverName : JsString) (peer : Peer σ)

def request (method : JsString) (params : Json) : Operation σ Json := fun s =>
  let (outcome, server) := peer method params s.server
  let after := { s with sent := s.sent ++ [(method, params)], server := server }
  match outcome with
  | .ok response => .ok response after
  | .error failure => .error failure after

/-- A member as a template writes it; a text that cannot be had throws. -/
def memberText (value : Json) (key : JsString) : Option JsString :=
  match value.member key with
  | none => some (js "undefined")
  | some member => templateText texts member

def typeError (message : JsString) : Failure McpClientError :=
  .thrown (.object ⟨true, false, some (js "TypeError"), some message, none, none, none, none, none,
    js "TypeError: " ++ message⟩)

def rpcError (method : JsString) (error : Json) : Failure McpClientError :=
  match memberText texts error (js "message"), memberText texts error (js "code") with
  | some message, some code =>
    .client ⟨js "MCP server `" ++ serverName ++ js "` returned JSON-RPC error for " ++ method ++
      js ": " ++ message ++ js " (" ++ code ++ js ")", serverName, method⟩
  | _, _ => typeError (js "Cannot convert object to primitive value")

def noResult (method : JsString) : Failure McpClientError :=
  .client ⟨js "MCP server `" ++ serverName ++ js "` returned no result for " ++ method,
    serverName, method⟩

def unwrap (response : Json) (method : JsString) : Operation σ Json :=
  let error := response.member (js "error")
  if truthy error then throw (rpcError texts serverName method (error.getD .null))
  else
    match response.member (js "result") with
    | some result => return result
    | none => throw (noResult serverName method)

/-- `initialize` once. Its two checks are those of `unwrap`. -/
def ensureInitialized (clientParams : Json) : Operation σ Unit := do
  if (← get).initialized then return
  let response ← request peer (js "initialize") clientParams
  let _ ← unwrap texts serverName response (js "initialize")
  modify fun s => { s with initialized := true }

end operations

section listing

/-- What one of the two list methods asks for, and the member its items come in. -/
structure Listing where
  method : JsString
  items : JsString

def toolsListing : Listing := ⟨js "tools/list", js "tools"⟩

def resourcesListing : Listing := ⟨js "resources/list", js "resources"⟩

variable {σ : Type} (texts : TemplateText) (serverName : JsString) (peer : Peer σ)

/-- `...values`: an array, or the characters of a string. -/
def spread : Option Json → Operation σ (List Json)
  | some (.arr values) => return values
  | some (.str s) => return (codePoints s).map fun c => .str (utf16 c)
  | _ => throw (typeError (js "Spread syntax requires ...iterable[Symbol.iterator] to be a function"))

/-- `...result.tools`, or `...result.resources`. -/
def spreadItems (result : Json) (items : JsString) : Operation σ (List Json) :=
  match result with
  | .null => throw (typeError (js "Cannot read properties of null (reading '" ++ items ++ js "')"))
  | _ => spread (result.member items)

/-- The parameters with the cursor, where there is one. -/
def listParams : Option Json → Json
  | none => .obj []
  | some cursor => .ofMembers [("cursor", cursor)]

/-- A page and its `nextCursor`. -/
structure Page where
  items : List Json
  nextCursor : Option Json

def listPage (listing : Listing) (cursor : Option Json) : Operation σ Page := do
  let response ← request peer listing.method (listParams cursor)
  let result ← unwrap texts serverName response listing.method
  let items ← spreadItems result listing.items
  return ⟨items, result.member (js "nextCursor")⟩

/-- The loop with its rounds bounded; it has not come to an end where it gives nothing. -/
def listPages (listing : Listing) :
    Nat → Option Json → List Json → Operation σ (Option (List Json))
  | 0, _, _ => return none
  | rounds + 1, cursor, items => do
    let page ← listPage texts serverName peer listing cursor
    match page.nextCursor with
    | none => return some (items ++ page.items)
    | some next => listPages listing rounds (some next) (items ++ page.items)

def listAll (clientParams : Json) (listing : Listing) (rounds : Nat) :
    Operation σ (Option (List Json)) := do
  ensureInitialized texts serverName peer clientParams
  listPages texts serverName peer listing rounds none []

def listTools (clientParams : Json) (rounds : Nat) : Operation σ (Option (List Json)) :=
  listAll texts serverName peer clientParams toolsListing rounds

structure McpListResourcesResult where
  resources : List Json

def listResources (clientParams : Json) (rounds : Nat) :
    Operation σ (Option McpListResourcesResult) := do
  let resources ← listAll texts serverName peer clientParams resourcesListing rounds
  return resources.map McpListResourcesResult.mk

end listing

section requests

variable {σ : Type} {texts : TemplateText} {serverName : JsString} {peer : Peer σ}

def SessionState.sends (s : SessionState σ) (method : JsString) (params : Json) (server : σ) :
    SessionState σ :=
  { s with sent := s.sent ++ [(method, params)], server := server }

theorem request_of_ok {method : JsString} {params response : Json} {server : σ}
    {s : SessionState σ} (h : peer method params s.server = (.ok response, server)) :
    request peer method params s = .ok response (s.sends method params server) := by
  rw [request, h]
  rfl

theorem request_sent (method : JsString) (params : Json) (s : SessionState σ) :
    (finalState (request peer method params s)).sent = s.sent ++ [(method, params)] := by
  rw [request]
  cases hpeer : peer method params s.server with
  | mk outcome server =>
    cases outcome with
    | ok response => rfl
    | error failure => rfl

theorem unwrap_final (response : Json) (method : JsString) (s : SessionState σ) :
    finalState (unwrap texts serverName response method s) = s := by
  rw [unwrap]
  by_cases herror : truthy (response.member (js "error")) = true
  · rw [if_pos herror]
    rfl
  · rw [if_neg herror]
    cases response.member (js "result") <;> rfl

theorem spread_final (values : Option Json) (s : SessionState σ) :
    finalState (spread values s) = s := by
  cases values with
  | none => rfl
  | some value => cases value <;> rfl

theorem spreadItems_eq {result : Json} (h : result ≠ .null) (items : JsString) :
    (spreadItems result items : Operation σ (List Json)) = spread (result.member items) := by
  cases result with
  | null => exact absurd rfl h
  | _ => rfl

theorem spreadItems_final (result : Json) (items : JsString) (s : SessionState σ) :
    finalState (spreadItems result items s) = s := by
  by_cases hnull : result = .null
  · rw [hnull]
    rfl
  · rw [spreadItems_eq hnull, spread_final]

theorem listPage_sent (listing : Listing) (cursor : Option Json) (s : SessionState σ) :
    (finalState (listPage texts serverName peer listing cursor s)).sent =
      s.sent ++ [(listing.method, listParams cursor)] := by
  rw [listPage, finalState_bind]
  · exact request_sent _ _ s
  · intro response after
    rw [finalState_bind, unwrap_final]
    intro result after
    rw [finalState_bind, spreadItems_final]
    intro items after
    rfl

/-- A page costs one request. -/
theorem sent_of_listPage {listing : Listing} {cursor : Option Json} {s after : SessionState σ}
    {page : Page} (h : listPage texts serverName peer listing cursor s = .ok page after) :
    after.sent = s.sent ++ [(listing.method, listParams cursor)] := by
  have hsent : (finalState (listPage texts serverName peer listing cursor s)).sent =
      s.sent ++ [(listing.method, listParams cursor)] := listPage_sent listing cursor s
  rw [h] at hsent
  exact hsent

end requests

section chains

variable {σ : Type} (texts : TemplateText) (serverName : JsString) (peer : Peer σ)
  (listing : Listing)

/-- A response with a page in it and no error. -/
structure Replies (response : Json) (page : Page) : Prop where
  success : truthy (response.member (js "error")) = false
  page : ∃ result, response.member (js "result") = some result ∧
    result.member listing.items = some (.arr page.items) ∧
    result.member (js "nextCursor") = page.nextCursor

/-- From a cursor on the server answers with these pages, each asked for by the cursor of the page
before it. The last has no next cursor: it leaves it out, or it is `null`. -/
inductive Answers : Option Json → σ → List Page → Prop
  | last {cursor server after response page}
    (hanswer : peer listing.method (listParams cursor) server = (.ok response, after))
    (hreplies : Replies listing response page)
    (hlast : page.nextCursor = none ∨ page.nextCursor = some .null) : Answers cursor server [page]
  | more {cursor server after response page next rest}
    (hanswer : peer listing.method (listParams cursor) server = (.ok response, after))
    (hreplies : Replies listing response page) (hnext : page.nextCursor = some next)
    (hcursor : next ≠ .null) (hrest : Answers (some next) after rest) :
    Answers cursor server (page :: rest)

/-- How many requests of a method have been sent. -/
def SessionState.sentTo (s : SessionState σ) (method : JsString) : Nat :=
  s.sent.countP fun request => request.1 = method

/-- A call returns a value, after one request for each page. -/
def ReturnsAfter {α : Type} (call : Nat → Operation σ (Option α)) (s : SessionState σ)
    (pages : List Page) (value : α) : Prop :=
  ∃ rounds after, call rounds s = .ok (some value) after ∧
    after.sentTo listing.method = s.sentTo listing.method + pages.length

/-- The last page has no field for a next cursor. -/
def LeavesCursorOut (pages : List Page) : Prop := ∀ page ∈ pages.getLast?, page.nextCursor = none

variable {texts serverName peer listing}

theorem member_ne_null {value member : Json} {key : JsString} (h : value.member key = some member) :
    value ≠ .null := by
  rintro rfl
  cases h

theorem listPage_of_replies {cursor : Option Json} {s : SessionState σ} {response : Json}
    {server : σ} {page : Page}
    (hanswer : peer listing.method (listParams cursor) s.server = (.ok response, server))
    (h : Replies listing response page) :
    listPage texts serverName peer listing cursor s =
      .ok page (s.sends listing.method (listParams cursor) server) := by
  obtain ⟨result, hresult, hitems, hnext⟩ := h.page
  have hunwrap : ∀ after : SessionState σ,
      unwrap texts serverName response listing.method after = .ok result after := by
    intro after
    rw [unwrap, if_neg (by rw [h.success]; exact Bool.false_ne_true), hresult]
    rfl
  have hspread : ∀ after : SessionState σ,
      spreadItems result listing.items after = .ok page.items after := by
    intro after
    rw [spreadItems_eq (member_ne_null hitems), hitems]
    rfl
  rw [listPage, bind_of_ok (request_of_ok hanswer), bind_of_ok (hunwrap _),
    bind_of_ok (hspread _), hnext]
  rfl

theorem sends_sentTo (s : SessionState σ) (method : JsString) (params : Json) (server : σ) :
    (s.sends method params server).sentTo method = s.sentTo method + 1 := by
  rw [SessionState.sentTo, SessionState.sends, List.countP_append]
  simp [SessionState.sentTo]

theorem Answers.ne_nil {cursor : Option Json} {server : σ} {pages : List Page}
    (h : Answers peer listing cursor server pages) : pages ≠ [] := by
  cases h <;> exact List.cons_ne_nil _ _

theorem leavesCursorOut_singleton {page : Page} :
    LeavesCursorOut [page] ↔ page.nextCursor = none := by
  simp [LeavesCursorOut]

theorem leavesCursorOut_cons {page : Page} {rest : List Page} (h : rest ≠ []) :
    LeavesCursorOut (page :: rest) ↔ LeavesCursorOut rest := by
  rw [LeavesCursorOut, List.getLast?_cons_of_ne_nil h]
  rfl

variable (texts serverName) in
/-- The pages of a chain cost one round each. A last page with `null` does not end the loop. -/
theorem listPages_of_answers {cursor : Option Json} {server : σ} {pages : List Page}
    (h : Answers peer listing cursor server pages) {s : SessionState σ} (hs : s.server = server) :
    ∃ after : SessionState σ,
      after.sentTo listing.method = s.sentTo listing.method + pages.length ∧
      (LeavesCursorOut pages → ∀ rounds items,
        listPages texts serverName peer listing (rounds + pages.length) cursor items s =
          .ok (some (items ++ pages.flatMap Page.items)) after) ∧
      (¬ LeavesCursorOut pages → ∀ rounds items,
        listPages texts serverName peer listing (rounds + pages.length) cursor items s =
          listPages texts serverName peer listing rounds (some .null)
            (items ++ pages.flatMap Page.items) after) := by
  induction h generalizing s with
  | @last cursor server server' response page hanswer hreplies hlast =>
    subst hs
    refine ⟨_, sends_sentTo s listing.method (listParams cursor) server', ?_, ?_⟩
    · intro hout rounds items
      have hnext : page.nextCursor = none := leavesCursorOut_singleton.mp hout
      change listPages texts serverName peer listing (rounds + 1) cursor items s = _
      rw [listPages, bind_of_ok (listPage_of_replies hanswer hreplies), hnext]
      rw [List.flatMap_singleton]
      rfl
    · intro hout rounds items
      have hnext : page.nextCursor = some .null := by
        apply hlast.resolve_left
        intro hnone
        exact hout (leavesCursorOut_singleton.mpr hnone)
      change listPages texts serverName peer listing (rounds + 1) cursor items s = _
      rw [listPages, bind_of_ok (listPage_of_replies hanswer hreplies), hnext]
      rw [List.flatMap_singleton]
  | @more cursor server server' response page next rest hanswer hreplies hnext hcursor hrest ih =>
    subst hs
    obtain ⟨after, hsent, hout, hnull⟩ :=
      ih (s := s.sends listing.method (listParams cursor) server') rfl
    -- One round takes the page and goes on with the cursor it names.
    have hround : ∀ rounds items,
        listPages texts serverName peer listing (rounds + (page :: rest).length) cursor items s =
          listPages texts serverName peer listing (rounds + rest.length) (some next)
            (items ++ page.items) (s.sends listing.method (listParams cursor) server') := by
      intro rounds items
      change listPages texts serverName peer listing (rounds + rest.length + 1) cursor items s = _
      rw [listPages, bind_of_ok (listPage_of_replies hanswer hreplies), hnext]
    refine ⟨after, ?_, ?_, ?_⟩
    · rw [hsent, sends_sentTo, List.length_cons]
      omega
    · intro hleaves rounds items
      rw [hround, hout ((leavesCursorOut_cons hrest.ne_nil).mp hleaves), List.flatMap_cons,
        List.append_assoc]
    · intro hleaves rounds items
      rw [hround, hnull (fun h => hleaves ((leavesCursorOut_cons hrest.ne_nil).mpr h)),
        List.flatMap_cons, List.append_assoc]

/-- A loop that has come to an end needs no more rounds. -/
theorem listPages_more {rounds : Nat} {cursor : Option Json} {items value : List Json}
    {s after : SessionState σ}
    (h : listPages texts serverName peer listing rounds cursor items s = .ok (some value) after)
    (extra : Nat) :
    listPages texts serverName peer listing (rounds + extra) cursor items s =
      .ok (some value) after := by
  induction rounds generalizing cursor items s with
  | zero => cases h
  | succ rounds ih =>
    rw [Nat.add_right_comm, listPages]
    rw [listPages] at h
    cases hpage : listPage texts serverName peer listing cursor s with
    | error failure mid =>
      rw [bind_of_error hpage] at h
      cases h
    | ok page mid =>
      rw [bind_of_ok hpage] at h ⊢
      cases hnext : page.nextCursor with
      | none =>
        rw [hnext] at h
        exact h
      | some next =>
        rw [hnext] at h
        exact ih h

/-- A loop that ends has sent a request. -/
theorem listPages_asks {rounds : Nat} {cursor : Option Json} {items value : List Json}
    {s after : SessionState σ}
    (h : listPages texts serverName peer listing rounds cursor items s = .ok (some value) after) :
    s.sentTo listing.method < after.sentTo listing.method := by
  induction rounds generalizing cursor items s with
  | zero => cases h
  | succ rounds ih =>
    rw [listPages] at h
    cases hrun : listPage texts serverName peer listing cursor s with
    | error failure mid =>
      rw [bind_of_error hrun] at h
      cases h
    | ok page mid =>
      have hmid : mid.sentTo listing.method = s.sentTo listing.method + 1 := by
        rw [SessionState.sentTo, sent_of_listPage hrun, List.countP_append]
        simp [SessionState.sentTo]
      rw [bind_of_ok hrun] at h
      cases hnext : page.nextCursor with
      | none =>
        rw [hnext] at h
        cases h
        omega
      | some next =>
        rw [hnext] at h
        have hrest := ih h
        omega

/-- As many requests of a method have been sent as before. -/
def SameCount (method : JsString) (s after : SessionState σ) : Prop :=
  after.sentTo method = s.sentTo method

theorem isFrame_sameCount (method : JsString) : IsFrame (SameCount (σ := σ) method) :=
  ⟨fun _ => rfl, fun _ _ _ hab hbc => hbc.trans hab⟩

theorem ensureInitialized_keeps {method : JsString} (hmethod : js "initialize" ≠ method)
    (clientParams : Json) :
    Keeps (SameCount method) (ensureInitialized texts serverName peer clientParams) := by
  have hframe := isFrame_sameCount (σ := σ) method
  have hrequest : Keeps (SameCount method) (request peer (js "initialize") clientParams) := by
    rw [keeps_iff]
    intro s
    rw [SameCount, SessionState.sentTo, request_sent, List.countP_append]
    simp [SessionState.sentTo, hmethod]
  have hunwrap : ∀ response, Keeps (SameCount method)
      (unwrap texts serverName response (js "initialize") : Operation σ Json) := by
    intro response
    rw [keeps_iff]
    intro s
    rw [unwrap_final]
    exact hframe.refl s
  rw [ensureInitialized]
  apply keeps_bind hframe (keeps_get hframe)
  intro s
  apply keeps_ite
  · intro _
    exact keeps_pure hframe ()
  · intro _
    apply keeps_bind hframe hrequest
    intro response
    apply keeps_bind hframe (hunwrap response)
    intro result
    exact keeps_modify fun _ => rfl

/-- Whether a list method returns the pages of a chain, with one request for each, is decided by
the last page. -/
theorem listAll_iff {clientParams : Json} {s start : SessionState σ}
    (hmethod : js "initialize" ≠ listing.method)
    (hstart : ensureInitialized texts serverName peer clientParams s = .ok () start)
    {pages : List Page} (hanswers : Answers peer listing none start.server pages) :
    ReturnsAfter listing (listAll texts serverName peer clientParams listing) s pages
      (pages.flatMap Page.items) ↔ LeavesCursorOut pages := by
  have hsent : SameCount listing.method s start := by
    have hkeeps : Keeps (SameCount listing.method)
        (ensureInitialized texts serverName peer clientParams) :=
      ensureInitialized_keeps hmethod clientParams
    have hends := ends_of_ok (hkeeps s) hstart
    exact hends
  have hcall : ∀ rounds, listAll texts serverName peer clientParams listing rounds s =
      listPages texts serverName peer listing rounds none [] start := by
    intro rounds
    rw [listAll, bind_of_ok hstart]
  obtain ⟨mid, hmid, hout, hnull⟩ := listPages_of_answers texts serverName hanswers rfl
  constructor
  · rintro ⟨rounds, after, hreturns, hcount⟩
    by_contra hleaves
    -- The loop goes on behind the last page, and every round of it is one request more.
    have hmore := hnull hleaves rounds []
    rw [hcall] at hreturns
    rw [listPages_more hreturns] at hmore
    have hasks := listPages_asks hmore.symm
    rw [SameCount] at hsent
    omega
  · intro hleaves
    refine ⟨0 + pages.length, mid, ?_, ?_⟩
    · rw [hcall, hout hleaves]
      rfl
    · rw [hmid]
      exact congrArg (· + pages.length) hsent

theorem listResources_iff {clientParams : Json} {s : SessionState σ} {pages : List Page}
    {items : List Json} :
    ReturnsAfter listing (listResources texts serverName peer clientParams) s pages ⟨items⟩ ↔
      ReturnsAfter listing (listAll texts serverName peer clientParams resourcesListing) s pages
        items := by
  constructor
  · rintro ⟨rounds, after, hreturns, hcount⟩
    refine ⟨rounds, after, ?_, hcount⟩
    rw [listResources] at hreturns
    cases hall : listAll texts serverName peer clientParams resourcesListing rounds s with
    | error failure mid =>
      rw [bind_of_error hall] at hreturns
      cases hreturns
    | ok resources mid =>
      rw [bind_of_ok hall] at hreturns
      cases resources with
      | none => cases hreturns
      | some resources =>
        cases hreturns
        rfl
  · rintro ⟨rounds, after, hreturns, hcount⟩
    refine ⟨rounds, after, ?_, hcount⟩
    rw [listResources, bind_of_ok hreturns]
    rfl

end chains

section results

variable {σ : Type}

/-- `listTools` and `listResources` send one request for each page of a chain and return the items
of the pages in order just when the last page leaves its next cursor out. -/
theorem lists_paginate_iff (texts : TemplateText) (serverName : JsString) (peer : Peer σ)
    (clientParams : Json) {s start : SessionState σ}
    (hstart : ensureInitialized texts serverName peer clientParams s = .ok () start)
    (pages : List Page) :
    (Answers peer toolsListing none start.server pages →
      (ReturnsAfter toolsListing (listTools texts serverName peer clientParams) s pages
        (pages.flatMap Page.items) ↔ LeavesCursorOut pages)) ∧
    (Answers peer resourcesListing none start.server pages →
      (ReturnsAfter resourcesListing (listResources texts serverName peer clientParams) s pages
        ⟨pages.flatMap Page.items⟩ ↔ LeavesCursorOut pages)) := by
  constructor
  · intro hanswers
    exact listAll_iff (by decide) hstart hanswers
  · intro hanswers
    rw [listResources_iff]
    exact listAll_iff (by decide) hstart hanswers

/-- A server with two pages. The second is asked for by a cursor. -/
def twoPages : Peer Unit := fun _ params server =>
  match params.member (js "cursor") with
  | none => (.ok first, server)
  | some _ => (.ok second, server)
where
  first := .ofMembers [("result", .ofMembers [("tools", .arr [.str (js "read")]),
    ("resources", .arr [.str (js "read")]), ("nextCursor", .str (js "2"))])]
  second := .ofMembers [("result", .ofMembers [("tools", .arr [.str (js "write")]),
    ("resources", .arr [.str (js "write")])])]

def twoPages.pages : List Page :=
  [⟨[.str (js "read")], some (.str (js "2"))⟩, ⟨[.str (js "write")], none⟩]

theorem twoPages_answers {listing : Listing}
    (h : listing = toolsListing ∨ listing = resourcesListing) :
    Answers twoPages listing none () twoPages.pages := by
  have hfirst : twoPages listing.method (listParams none) () = (.ok twoPages.first, ()) := rfl
  have hsecond : twoPages listing.method (listParams (some (.str (js "2")))) () =
      (.ok twoPages.second, ()) := rfl
  have hone : Replies listing twoPages.first ⟨[.str (js "read")], some (.str (js "2"))⟩ := by
    rcases h with rfl | rfl <;> exact ⟨rfl, _, rfl, rfl, rfl⟩
  have htwo : Replies listing twoPages.second ⟨[.str (js "write")], none⟩ := by
    rcases h with rfl | rfl <;> exact ⟨rfl, _, rfl, rfl, rfl⟩
  exact Answers.more hfirst hone rfl Json.noConfusion (Answers.last hsecond htwo (.inl rfl))

/-- A session no operation has been made on. -/
def fresh {σ : Type} (server : σ) : SessionState σ := ⟨false, [], server⟩

theorem twoPages_listed :
    ReturnsAfter toolsListing (listTools plainText (js "fs") twoPages (.obj [])) (fresh ())
      twoPages.pages [.str (js "read"), .str (js "write")] ∧
    ReturnsAfter resourcesListing (listResources plainText (js "fs") twoPages (.obj [])) (fresh ())
      twoPages.pages ⟨[.str (js "read"), .str (js "write")]⟩ := by
  have hstart : ensureInitialized plainText (js "fs") twoPages (.obj []) (fresh ()) =
      .ok () ⟨true, [(js "initialize", .obj [])], ()⟩ := rfl
  have hlists := lists_paginate_iff plainText (js "fs") twoPages (.obj []) hstart twoPages.pages
  have hleaves : LeavesCursorOut twoPages.pages := by
    intro page hpage
    obtain rfl := Option.some.inj hpage
    rfl
  exact ⟨(hlists.1 (twoPages_answers (.inl rfl))).mpr hleaves,
    (hlists.2 (twoPages_answers (.inr rfl))).mpr hleaves⟩

/-- A server whose only page says that there is no next cursor. -/
def nullCursor : Peer Unit := fun _ _ server =>
  (.ok (.ofMembers [("result", .ofMembers [("tools", .arr []), ("nextCursor", .null)])]), server)

theorem nullCursor_not_listed :
    Answers nullCursor toolsListing none () [⟨[], some .null⟩] ∧
    ¬ ReturnsAfter toolsListing (listTools plainText (js "fs") nullCursor (.obj [])) (fresh ())
      [⟨[], some .null⟩] [] := by
  have hanswers : Answers nullCursor toolsListing none () [⟨[], some .null⟩] :=
    Answers.last rfl ⟨rfl, _, rfl, rfl, rfl⟩ (.inr rfl)
  have hstart : ensureInitialized plainText (js "fs") nullCursor (.obj []) (fresh ()) =
      .ok () ⟨true, [(js "initialize", .obj [])], ()⟩ := rfl
  refine ⟨hanswers, ?_⟩
  intro hreturns
  have hleaves := (listAll_iff (by decide) hstart hanswers).mp hreturns
  exact absurd (hleaves _ rfl) (by decide)

end results

end Solarcido.Mcp.Client
