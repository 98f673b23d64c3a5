import Solarcido.Mcp.Manager
import Solarcido.Tools.Registry

namespace Solarcido.Mcp

open Text Tools ThrowingProgram InsertionMap GlobalToolRegistry

/-- The specs a sweep got from each server; none from one that failed. -/
abbrev Listed := List (JsString × List BridgedToolSpec)

def Listed.specs (listed : Listed) : List BridgedToolSpec := listed.flatMap Prod.snd

def Listed.servers (listed : Listed) : List JsString := listed.map Prod.fst

/-- What a sweep does to the routing table. -/
def sweep (toolIndex : InsertionMap JsString ToolRoute) (listed : Listed) :
    InsertionMap JsString ToolRoute :=
  listed.foldl (fun index l => setRoutes (clearRoutesForServer index l.1) l.2) toolIndex

/-- Each spec is the bridge of a tool of the server it is listed under. -/
def Bridged (listed : Listed) : Prop :=
  ∀ l ∈ listed, ∀ spec ∈ l.2, spec.serverName = l.1 ∧
    spec.qualifiedName = mcpToolName spec.serverName spec.rawName

theorem bridgeTools_bridged (serverName : JsString) (tools : List McpTool) :
    ∀ spec ∈ bridgeTools serverName tools, spec.serverName = serverName ∧
      spec.qualifiedName = mcpToolName spec.serverName spec.rawName := by
  intro spec hspec
  obtain ⟨tool, -, rfl⟩ := List.mem_map.mp hspec
  exact ⟨rfl, rfl⟩

theorem bridged_cons {serverName : JsString} {specs : List BridgedToolSpec} {listed : Listed}
    (hspecs : ∀ spec ∈ specs, spec.serverName = serverName ∧
      spec.qualifiedName = mcpToolName spec.serverName spec.rawName)
    (hlisted : Bridged listed) : Bridged ((serverName, specs) :: listed) := by
  intro l hl
  obtain rfl | hl := List.mem_cons.mp hl
  · exact hspecs
  · exact hlisted l hl

theorem servers_cons (serverName : JsString) (specs : List BridgedToolSpec) {listed : Listed}
    {serverNames : List JsString} (h : listed.servers = serverNames) :
    Listed.servers ((serverName, specs) :: listed) = serverName :: serverNames := by
  rw [Listed.servers, List.map_cons, ← h, Listed.servers]

theorem specs_cons (serverName : JsString) (specs discovered : List BridgedToolSpec)
    (listed : Listed) : discovered ++ Listed.specs ((serverName, specs) :: listed) =
      discovered ++ specs ++ listed.specs := by
  rw [Listed.specs, List.flatMap_cons, List.append_assoc, Listed.specs]

theorem discoverEach_listed (calls : Calls) (entries : List (JsString × McpServerSession))
    (toolIndex : InsertionMap JsString ToolRoute) (discovered specs : List BridgedToolSpec)
    (toolIndex' : InsertionMap JsString ToolRoute)
    (h : McpServerManager.discoverEach calls entries toolIndex discovered =
      (.ok specs, toolIndex')) :
    ∃ listed : Listed, listed.servers = entries.map Prod.fst ∧ Bridged listed ∧
      specs = discovered ++ listed.specs ∧ toolIndex' = sweep toolIndex listed := by
  induction entries generalizing toolIndex discovered with
  | nil =>
    simp only [McpServerManager.discoverEach, Prod.mk.injEq, Except.ok.injEq] at h
    exact ⟨[], rfl, by simp [Bridged], by simp [Listed.specs, h.1], h.2.symm⟩
  | cons entry rest ih =>
    obtain ⟨serverName, session⟩ := entry
    simp only [McpServerManager.discoverEach] at h
    split at h
    · simp at h
    · next tools _ =>
      obtain ⟨listed, hnames, hbridged, hspecs, hindex⟩ := ih _ _ h
      exact ⟨(serverName, bridgeTools serverName tools) :: listed, servers_cons _ _ hnames,
        bridged_cons (bridgeTools_bridged serverName tools) hbridged,
        hspecs.trans (specs_cons _ _ _ _).symm, hindex⟩

theorem bestEffortEach_listed (calls : Calls) (entries : List (JsString × McpServerSession))
    (toolIndex : InsertionMap JsString ToolRoute) (discovered : List BridgedToolSpec)
    (failed : List McpServerManager.FailedServer) :
    ∃ listed : Listed, listed.servers = entries.map Prod.fst ∧ Bridged listed ∧
      (McpServerManager.bestEffortEach calls entries toolIndex discovered failed).1 =
        discovered ++ listed.specs ∧
      (McpServerManager.bestEffortEach calls entries toolIndex discovered failed).2.2 =
        sweep toolIndex listed := by
  induction entries generalizing toolIndex discovered failed with
  | nil =>
    exact ⟨[], rfl, by simp [Bridged], by simp [Listed.specs, McpServerManager.bestEffortEach], rfl⟩
  | cons entry rest ih =>
    obtain ⟨serverName, session⟩ := entry
    simp only [McpServerManager.bestEffortEach]
    split
    · obtain ⟨listed, hnames, hbridged, hspecs, hindex⟩ := ih _ _ _
      exact ⟨(serverName, []) :: listed, servers_cons _ _ hnames, bridged_cons (by simp) hbridged,
        hspecs, hindex⟩
    · next tools _ =>
      obtain ⟨listed, hnames, hbridged, hspecs, hindex⟩ := ih _ _ _
      exact ⟨(serverName, bridgeTools serverName tools) :: listed, servers_cons _ _ hnames,
        bridged_cons (bridgeTools_bridged serverName tools) hbridged,
        hspecs.trans (specs_cons _ _ _ _).symm, hindex⟩

/-- A route survives the rest of a sweep, or a later spec of the same name replaces it. -/
theorem sweep_keeps (listed : Listed) (toolIndex : InsertionMap JsString ToolRoute)
    (q : JsString) (route : ToolRoute) (hnodup : listed.servers.Nodup) (hbridged : Bridged listed)
    (hget : toolIndex.get q = some route) (hserver : route.serverName ∉ listed.servers) :
    (sweep toolIndex listed).get q = some route ∨
      ∃ spec ∈ listed.specs, spec.qualifiedName = q ∧
        (sweep toolIndex listed).get q = some spec.route := by
  induction listed generalizing toolIndex route with
  | nil => exact Or.inl hget
  | cons l rest ih =>
    obtain ⟨serverName, specs⟩ := l
    simp only [Listed.servers, List.map_cons, List.nodup_cons, List.mem_cons, not_or]
      at hnodup hserver
    have hrest : Bridged rest := fun l hl => hbridged l (by simp [hl])
    have hclear : (clearRoutesForServer toolIndex serverName).get q = some route :=
      get_filter_of_pass hget (by simpa using hserver.1)
    by_cases hset : ∃ spec ∈ specs, spec.qualifiedName = q
    · obtain ⟨spec, hspec, rfl⟩ := hset
      obtain ⟨other, hother, hname, hnew⟩ := get_setAll_of_mem BridgedToolSpec.qualifiedName
        BridgedToolSpec.route (clearRoutesForServer toolIndex serverName) specs spec hspec
      have hown := (hbridged (serverName, specs) (by simp) other hother).1
      have hfresh : other.route.serverName ∉ Listed.servers rest := by
        rw [BridgedToolSpec.route, hown]
        exact hnodup.1
      obtain hkept | ⟨later, hlater, hlname, hlget⟩ := ih _ other.route hnodup.2 hrest hnew hfresh
      · exact Or.inr ⟨other, by simp [Listed.specs, hother], hname, hkept⟩
      · refine Or.inr ⟨later, ?_, hlname, hlget⟩
        simp only [Listed.specs, List.flatMap_cons, List.mem_append]
        exact Or.inr hlater
    · have hkeep := get_setAll_of_ne BridgedToolSpec.qualifiedName BridgedToolSpec.route
        (clearRoutesForServer toolIndex serverName) specs q
        fun spec hspec he => hset ⟨spec, hspec, he⟩
      rw [hclear] at hkeep
      obtain hkept | ⟨later, hlater, hlname, hlget⟩ := ih _ route hnodup.2 hrest hkeep hserver.2
      · exact Or.inl hkept
      · refine Or.inr ⟨later, ?_, hlname, hlget⟩
        simp only [Listed.specs, List.flatMap_cons, List.mem_append]
        exact Or.inr hlater

/-- After a sweep every discovered name has the route of a spec of that name. -/
theorem sweep_routes (listed : Listed) (toolIndex : InsertionMap JsString ToolRoute)
    (hnodup : listed.servers.Nodup) (hbridged : Bridged listed) (spec : BridgedToolSpec)
    (hspec : spec ∈ listed.specs) :
    ∃ other ∈ listed.specs, other.qualifiedName = spec.qualifiedName ∧
      (sweep toolIndex listed).get spec.qualifiedName = some other.route := by
  induction listed generalizing toolIndex with
  | nil => simp [Listed.specs] at hspec
  | cons l rest ih =>
    obtain ⟨serverName, specs⟩ := l
    simp only [Listed.servers, List.map_cons, List.nodup_cons] at hnodup
    have hrest : Bridged rest := fun l hl => hbridged l (by simp [hl])
    simp only [Listed.specs, List.flatMap_cons, List.mem_append] at hspec ⊢
    obtain hown | hlater := hspec
    · obtain ⟨first, hfirst, hname, hget⟩ := get_setAll_of_mem BridgedToolSpec.qualifiedName
        BridgedToolSpec.route (clearRoutesForServer toolIndex serverName) specs spec hown
      have hserver := (hbridged (serverName, specs) (by simp) first hfirst).1
      have hfresh : first.route.serverName ∉ Listed.servers rest := by
        rw [BridgedToolSpec.route, hserver]
        exact hnodup.1
      obtain hkept | ⟨later, hlater, hlname, hlget⟩ :=
        sweep_keeps rest _ _ first.route hnodup.2 hrest hget hfresh
      · exact ⟨first, Or.inl hfirst, hname, hkept⟩
      · exact ⟨later, Or.inr hlater, hlname, hlget⟩
    · obtain ⟨other, hother, hname, hget⟩ := ih (setRoutes (clearRoutesForServer toolIndex
        serverName) specs) hnodup.2 hrest hlater
      exact ⟨other, Or.inr hother, hname, hget⟩

/-- Tools have been discovered, by a sweep that stops at a failing server or by one
that goes on. -/
def Discovers (manager : McpServerManager) (calls : Calls) (specs : List BridgedToolSpec)
    (after : McpServerManager) : Prop :=
  manager.discoverTools calls = (.ok specs, after) ∨
    ∃ failed, manager.discoverToolsBestEffort calls = (specs, failed, after)

theorem discovers_listed {manager : McpServerManager} {calls : Calls}
    {specs : List BridgedToolSpec} {after : McpServerManager}
    (h : Discovers manager calls specs after) :
    ∃ listed : Listed, listed.servers = manager.sessions.keys ∧ Bridged listed ∧
      specs = listed.specs ∧
      after = { manager with toolIndex := sweep manager.toolIndex listed } := by
  obtain h | ⟨failed, h⟩ := h
  · simp only [McpServerManager.discoverTools, Prod.mk.injEq] at h
    obtain ⟨hok, hafter⟩ := h
    obtain ⟨listed, hnames, hbridged, hspecs, hindex⟩ :=
      discoverEach_listed calls manager.sessions.entries manager.toolIndex [] specs _
        (Prod.ext hok rfl)
    exact ⟨listed, hnames, hbridged, hspecs,
      hafter.symm.trans (congrArg (McpServerManager.mk manager.sessions) hindex)⟩
  · simp only [McpServerManager.discoverToolsBestEffort, Prod.mk.injEq] at h
    obtain ⟨hspecs', -, hafter⟩ := h
    obtain ⟨listed, hnames, hbridged, hspecs, hindex⟩ :=
      bestEffortEach_listed calls manager.sessions.entries manager.toolIndex [] []
    exact ⟨listed, hnames, hbridged, by rw [← hspecs', hspecs, List.nil_append],
      hafter.symm.trans (congrArg (McpServerManager.mk manager.sessions) hindex)⟩

/-- The server a discovered spec came from has a session, and the spec's name has the
route of a discovered spec of that name. -/
theorem discovered_route {manager : McpServerManager} {calls : Calls}
    {specs : List BridgedToolSpec} {after : McpServerManager}
    (h : Discovers manager calls specs after) (spec : BridgedToolSpec) (hspec : spec ∈ specs) :
    ∃ other ∈ specs, other.qualifiedName = spec.qualifiedName ∧
      after.toolIndex.get spec.qualifiedName = some other.route ∧
      ∃ session, after.sessions.get other.serverName = some session := by
  obtain ⟨listed, hnames, hbridged, rfl, rfl⟩ := discovers_listed h
  have hnodup : listed.servers.Nodup := hnames ▸ manager.sessions.nodup
  obtain ⟨other, hother, hname, hget⟩ :=
    sweep_routes listed manager.toolIndex hnodup hbridged spec hspec
  refine ⟨other, hother, hname, hget, ?_⟩
  obtain ⟨l, hl, hmem⟩ := List.mem_flatMap.mp hother
  have hserver : other.serverName ∈ manager.sessions.keys := by
    rw [(hbridged l hl other hmem).1, ← hnames]
    exact List.mem_map.mpr ⟨l, hl, rfl⟩
  obtain ⟨entry, hentry, hkey⟩ := List.mem_map.mp hserver
  exact ⟨entry.2, get_of_mem (hkey ▸ hentry)⟩

theorem invoke_calls {manager : McpServerManager} {qualifiedName : JsString} {route : ToolRoute}
    {session : McpServerSession} (hroute : manager.toolIndex.get qualifiedName = some route)
    (hsession : manager.sessions.get route.serverName = some session) (args : Option Json)
    (calls : Calls) :
    finalState (manager.invoke qualifiedName args calls) =
      calls ++ [⟨route.serverName, route.rawName, args⟩] := by
  rw [McpServerManager.invoke]
  simp only [hroute, hsession, McpServerSession.callTool]
  cases session.answer route.rawName args calls <;> rfl

section registry

variable (host : Host Calls)

/-- The registry of a run: the builtin tools and the discovered MCP tools. -/
def toolRegistry (manager : McpServerManager) (specs : List BridgedToolSpec) :
    GlobalToolRegistry Calls :=
  GlobalToolRegistry.new BUILTIN_TOOLS
    (mcpToolsAsRuntimeTools host.numberText manager.invoke specs) []

/-- A context in which MCP tools run: the ceiling allows them and plan mode is off. -/
def Admits (context : ToolExecutionContext Calls) (w : World Calls) : Prop :=
  permissionAllows (getPermissionEnforcer host context).ceiling .workspaceWrite = true ∧
    (context.planMode && w.planActive) = false

/-- A discovered name is registered with the executor of a spec of the same
normalized name. -/
theorem toolRegistry_get (manager : McpServerManager) (specs : List BridgedToolSpec)
    (spec : BridgedToolSpec) (hspec : spec ∈ specs) :
    ∃ other ∈ specs,
      normalizeToolName other.qualifiedName = normalizeToolName spec.qualifiedName ∧
      (toolRegistry host manager specs).get (normalizeToolName spec.qualifiedName) =
        some (registered (mcpToolAsRuntimeTool host.numberText manager.invoke other).registration) := by
  have hmem : (mcpToolAsRuntimeTool host.numberText manager.invoke spec).registration ∈
      (mcpToolsAsRuntimeTools host.numberText manager.invoke specs).map
        RuntimeToolDefinition.registration ++ ([] : List (PluginTool Calls)).map
          PluginTool.registration :=
    List.mem_append_left _ (List.mem_map_of_mem (List.mem_map_of_mem hspec))
  obtain ⟨r, hr, hkey, hget⟩ := get_setAll_of_mem registrationKey registered
    ((empty : GlobalToolRegistry Calls).setAll registrationKey registered
      (BUILTIN_TOOLS.map BuiltinTool.registration)) _ _ hmem
  rw [List.map_nil, List.append_nil] at hr
  obtain ⟨tool, htool, rfl⟩ := List.mem_map.mp hr
  obtain ⟨other, hother, rfl⟩ := List.mem_map.mp htool
  refine ⟨other, hother, hkey, ?_⟩
  rw [toolRegistry, new_eq_setAll, setAll_append]
  exact hget

theorem mcpToolExecute_calls (manager : McpServerManager) (qualifiedName : JsString)
    (input : Json) (w : World Calls) :
    finalState (mcpToolExecute host.numberText manager.invoke qualifiedName input w) =
      { w with env := finalState (manager.invoke qualifiedName (some input) w.env) } := by
  have horThrow : ∀ (r : Except Thrown JsString) (w : World Calls),
      finalState (orThrow r w) = w := by
    intro r w
    cases r <;> rfl
  rw [mcpToolExecute, finalState_tryCatch _ _ _ (fun _ _ => rfl), finalState_bind, outside,
    finalState_onPart]
  intro result w'
  rw [finalState_bind _ _ _ (fun _ _ => rfl), horThrow]

theorem execute_registered (manager : McpServerManager) (specs : List BridgedToolSpec)
    (name : JsString) (other : BridgedToolSpec) (input : Json)
    (context : ToolExecutionContext Calls) (w : World Calls) (hadmits : Admits host context w)
    (hget : (toolRegistry host manager specs).get (normalizeToolName name) =
      some (registered (mcpToolAsRuntimeTool host.numberText manager.invoke other).registration)) :
    finalState ((toolRegistry host manager specs).execute host name input context w) =
      { w with env := finalState (manager.invoke other.qualifiedName (some input) w.env) } := by
  have hadmission := (admission_admitted_iff host (toolRegistry host manager specs) name context
    w.planActive _ _).mpr ⟨hget, rfl, hadmits.1, fun hplan => absurd hplan (by simp [hadmits.2])⟩
  rw [execute_apply, hadmission]
  simp only
  rw [finalState_runCaught]
  exact mcpToolExecute_calls host manager other.qualifiedName input w

/-- Every discovered spec is reached under its qualified name, through the manager and
through the registry: the call goes to its own server, under its own raw name. -/
def Faithful (manager : McpServerManager) (specs : List BridgedToolSpec) : Prop :=
  ∀ spec ∈ specs,
    (∀ args calls, finalState (manager.invoke spec.qualifiedName args calls) =
      calls ++ [⟨spec.serverName, spec.rawName, args⟩]) ∧
    ∀ input context w, Admits host context w →
      (finalState ((toolRegistry host manager specs).execute host spec.qualifiedName input
        context w)).env = w.env ++ [⟨spec.serverName, spec.rawName, some input⟩]

/-- Routing is faithful exactly when no two of the discovered tools have names that
normalize alike. -/
theorem faithful_iff (manager : McpServerManager) (calls : Calls) (specs : List BridgedToolSpec)
    (after : McpServerManager) (h : Discovers manager calls specs after) :
    Faithful host after specs ↔
      ∀ spec ∈ specs, ∀ other ∈ specs,
        normalizeToolName (mcpToolName spec.serverName spec.rawName) =
          normalizeToolName (mcpToolName other.serverName other.rawName) →
        spec.route = other.route := by
  have hqualified : ∀ spec ∈ specs,
      spec.qualifiedName = mcpToolName spec.serverName spec.rawName := by
    obtain ⟨listed, -, hbridged, rfl, -⟩ := discovers_listed h
    intro spec hspec
    obtain ⟨l, hl, hmem⟩ := List.mem_flatMap.mp hspec
    exact (hbridged l hl spec hmem).2
  constructor
  · intro hfaithful spec hspec other hother hkey
    let context : ToolExecutionContext Calls :=
      ⟨[], .never, .workspaceWrite, none, none, none, false⟩
    let w : World Calls := ⟨[], .dir [], false⟩
    have hadmits : Admits host context w := ⟨rfl, rfl⟩
    rw [← hqualified spec hspec, ← hqualified other hother] at hkey
    obtain ⟨third, -, -, hget⟩ := toolRegistry_get host after specs spec hspec
    have hone := (hfaithful spec hspec).2 .null context w hadmits
    have htwo := (hfaithful other hother).2 .null context w hadmits
    rw [execute_registered host after specs _ third _ _ _ hadmits hget] at hone
    rw [execute_registered host after specs _ third _ _ _ hadmits (hkey ▸ hget), hone] at htwo
    have hcall := List.append_cancel_left htwo
    simp only [List.cons.injEq, McpCall.mk.injEq, and_true] at hcall
    simp only [BridgedToolSpec.route, hcall.1, hcall.2]
  · intro hdistinct
    have hinvoke : ∀ spec ∈ specs, ∀ args calls,
        finalState (after.invoke spec.qualifiedName args calls) =
          calls ++ [⟨spec.serverName, spec.rawName, args⟩] := by
      intro spec hspec args calls
      obtain ⟨other, hother, hname, hroute, session, hsession⟩ := discovered_route h spec hspec
      have hsame := hdistinct other hother spec hspec (by
        rw [← hqualified other hother, ← hqualified spec hspec, hname])
      rw [invoke_calls hroute hsession]
      rw [BridgedToolSpec.route, BridgedToolSpec.route, ToolRoute.mk.injEq] at hsame
      simp only [BridgedToolSpec.route, hsame.1, hsame.2]
    intro spec hspec
    refine ⟨hinvoke spec hspec, ?_⟩
    intro input context w hadmits
    obtain ⟨other, hother, hkey, hget⟩ := toolRegistry_get host after specs spec hspec
    have hsame := hdistinct other hother spec hspec (by
      rw [← hqualified other hother, ← hqualified spec hspec, hkey])
    rw [execute_registered host after specs _ other _ _ _ hadmits hget]
    rw [hinvoke other hother]
    rw [BridgedToolSpec.route, BridgedToolSpec.route, ToolRoute.mk.injEq] at hsame
    simp only [hsame.1, hsame.2]

/-- The qualified names are in a namespace of their own: in the registry of a run every
builtin tool keeps its name. -/
theorem toolRegistry_keepsBuiltins (manager : McpServerManager) (calls : Calls)
    (specs : List BridgedToolSpec) (after : McpServerManager)
    (h : Discovers manager calls specs after) :
    KeepsBuiltins (toolRegistry host after specs) BUILTIN_TOOLS := by
  obtain ⟨listed, -, hbridged, rfl, -⟩ := discovers_listed h
  have hbuiltin : ∀ tool ∈ BUILTIN_TOOLS,
      ¬ js "mcp__" <+: normalizeToolName tool.spec.name := by decide +kernel
  have hdistinct : (BUILTIN_TOOLS.map fun tool => normalizeToolName tool.spec.name).Nodup := by
    decide +kernel
  refine (keepsBuiltins_iff BUILTIN_TOOLS _ []).mpr ⟨?_, ?_⟩
  · intro r hr tool htool hkey
    rw [laterRegistrations, List.map_nil, List.append_nil] at hr
    obtain ⟨runtime, hruntime, rfl⟩ := List.mem_map.mp hr
    obtain ⟨spec, hspec, rfl⟩ := List.mem_map.mp hruntime
    obtain ⟨l, hl, hmem⟩ := List.mem_flatMap.mp hspec
    apply hbuiltin tool htool
    rw [← hkey]
    have hname := normalizeToolName_mcp spec.serverName spec.rawName
    rw [← (hbridged l hl spec hmem).2] at hname
    exact hname
  · intro tool htool other hother hkey
    rw [List.inj_on_of_nodup_map hdistinct htool hother hkey]

end registry

/-- A server with one tool that answers nothing. -/
def oneTool (toolName : JsString) : McpServerSession where
  listTools _ := .ok [⟨toolName, none, none⟩]
  answer _ _ _ := .ok ⟨some [], none⟩

def managerOf (first second : JsString) : McpServerManager :=
  (McpServerManager.registerServer ⟨.empty, .empty⟩ first (oneTool (js "t"))).registerServer second
    (oneTool (js "t"))

def specsOf (first second : JsString) : List BridgedToolSpec :=
  [bridgeTool first ⟨js "t", none, none⟩, bridgeTool second ⟨js "t", none, none⟩]

theorem managerOf_discovers (first second : JsString) (h : first ≠ second) :
    Discovers (managerOf first second) [] (specsOf first second)
      ((managerOf first second).discoverTools []).2 := by
  have hentries : (managerOf first second).sessions.entries =
      [(first, oneTool (js "t")), (second, oneTool (js "t"))] := by
    simp [managerOf, McpServerManager.registerServer, InsertionMap.set, setEntries, empty, h]
  refine Or.inl (Prod.ext ?_ rfl)
  simp only [McpServerManager.discoverTools, hentries]
  rfl

theorem faithful_iff_two_servers :
    Faithful (Host.bare fun _ => .ok .null) ((managerOf (js "a") (js "b")).discoverTools []).2
        (specsOf (js "a") (js "b")) ↔
      ∀ spec ∈ specsOf (js "a") (js "b"), ∀ other ∈ specsOf (js "a") (js "b"),
        normalizeToolName (mcpToolName spec.serverName spec.rawName) =
          normalizeToolName (mcpToolName other.serverName other.rawName) →
        spec.route = other.route :=
  faithful_iff _ _ _ _ _ (managerOf_discovers (js "a") (js "b") (by decide))

/-- The servers `a b` and `a_b`: a call of the first one's tool reaches the second. -/
theorem blurred_names_conflated :
    Discovers (managerOf (js "a b") (js "a_b")) [] (specsOf (js "a b") (js "a_b"))
        ((managerOf (js "a b") (js "a_b")).discoverTools []).2 ∧
      ¬ Faithful (Host.bare fun _ => .ok .null)
        ((managerOf (js "a b") (js "a_b")).discoverTools []).2 (specsOf (js "a b") (js "a_b")) := by
  refine ⟨managerOf_discovers _ _ (by decide), ?_⟩
  intro h
  have hfirst := (h (bridgeTool (js "a b") ⟨js "t", none, none⟩) (by simp [specsOf])).1 none []
  have hreached : (finalState (((managerOf (js "a b") (js "a_b")).discoverTools []).2.invoke
      (mcpToolName (js "a b") (js "t")) none [])).map McpCall.serverName = [js "a_b"] := by
    decide +kernel
  rw [bridgeTool] at hfirst
  rw [hfirst] at hreached
  exact absurd hreached (by decide)

end Solarcido.Mcp
