import Solarcido.Crates.McpConfig
import Solarcido.Hashes.Fingerprints

namespace Solarcido.Crates

open RustText

section hash

/-- What the hash of a definition is taken of. -/
def scopedMcpConfigText (serverName : RustString) (config : McpServerConfig) : RustString :=
  match config with
  | .stdio stdio =>
    serverName ++ str "|stdio|" ++ stdio.command ++ str "|" ++ join (str " ") stdio.args ++
      str "|" ++ stdio.toolCallTimeoutMs.elim [] fun value => decimal value.val
  | .http remote => serverName ++ str "|" ++ config.transport ++ str "|" ++ remote.url
  | .sse remote => serverName ++ str "|" ++ config.transport ++ str "|" ++ remote.url
  | .ws remote => serverName ++ str "|ws|" ++ remote.url
  | .sdk sdk => serverName ++ str "|sdk|" ++ sdk.name

def scopedMcpConfigHash (serverName : RustString) (config : McpServerConfig) : RustString :=
  stableHexHash (scopedMcpConfigText serverName config)

end hash

section sameServer

/-- Two definitions start, or reach, a server in the same way. -/
def McpServerConfig.SameServer : McpServerConfig → McpServerConfig → Prop
  | .stdio c, .stdio d => c.command = d.command ∧ c.args = d.args ∧ c.env = d.env
  | .http c, .http d => c = d
  | .sse c, .sse d => c = d
  | .ws c, .ws d => c = d
  | .sdk c, .sdk d => c = d
  | _, _ => False

/-- The command and its arguments are one line, cut in two ways, and the same timeout follows. -/
def McpStdioServerConfig.SameLine (c d : McpStdioServerConfig) : Prop :=
  c.command ++ '|' :: join (str " ") c.args = d.command ++ '|' :: join (str " ") d.args ∧
    c.toolCallTimeoutMs = d.toolCallTimeoutMs

/-- What a definition of each transport leaves out, or blurs, is not where the two differ. -/
def McpServerConfig.Plain : McpServerConfig → McpServerConfig → Prop
  | .stdio c, .stdio d =>
    c.SameLine d → c.command = d.command ∧ c.args = d.args ∧ c.env = d.env
  | .http c, .http d => c.url = d.url → c.headers = d.headers ∧ c.headersHelper = d.headersHelper
  | .sse c, .sse d => c.url = d.url → c.headers = d.headers ∧ c.headersHelper = d.headersHelper
  | .ws c, .ws d => c.url = d.url → c.headers = d.headers ∧ c.headersHelper = d.headersHelper
  | _, _ => True

/-- What a definition says after its transport. -/
def McpServerConfig.payload : McpServerConfig → RustString
  | .stdio c =>
    c.command ++ '|' :: join (str " ") c.args ++
      '|' :: c.toolCallTimeoutMs.elim [] fun value => decimal value.val
  | .http c => c.url
  | .sse c => c.url
  | .ws c => c.url
  | .sdk c => c.name

/-- The second name goes on behind the first one as the first definition does. -/
def RunsOn (serverName : RustString) (config : McpServerConfig) (otherName : RustString)
    (other : McpServerConfig) : Prop :=
  ∃ more, otherName = serverName ++ '|' :: more ∧
    config.transport ++ '|' :: config.payload =
      more ++ '|' :: (other.transport ++ '|' :: other.payload)

end sameServer

section separators

variable {α : Type} {sep : α} {a b x y : List α}

theorem append_sep_inj (ha : sep ∉ a) (hb : sep ∉ b) :
    a ++ sep :: x = b ++ sep :: y ↔ a = b ∧ x = y := by
  constructor
  · intro h
    obtain ⟨more, rfl, hmore⟩ | ⟨more, rfl, hmore⟩ := List.append_eq_append_iff.mp h
    · cases more with
      | nil => exact ⟨(List.append_nil a).symm, (List.cons.inj hmore).2⟩
      | cons c more =>
        obtain rfl := (List.cons.inj hmore).1
        simp at hb
    · cases more with
      | nil => exact ⟨List.append_nil b, (List.cons.inj hmore).2.symm⟩
      | cons c more =>
        obtain rfl := (List.cons.inj hmore).1
        simp at ha
  · rintro ⟨rfl, rfl⟩
    rfl

theorem append_last_sep_inj (hx : sep ∉ x) (hy : sep ∉ y) :
    a ++ sep :: x = b ++ sep :: y ↔ a = b ∧ x = y := by
  have hback : ∀ l m : List α, l ++ sep :: m = (m.reverse ++ sep :: l.reverse).reverse := by
    intro l m
    simp
  rw [hback a x, hback b y, List.reverse_inj,
    append_sep_inj (by simpa using hx) (by simpa using hy), List.reverse_inj, List.reverse_inj]
  exact And.comm

end separators

section text

theorem scopedMcpConfigText_eq (serverName : RustString) (config : McpServerConfig) :
    scopedMcpConfigText serverName config =
      serverName ++ '|' :: (config.transport ++ '|' :: config.payload) := by
  cases config <;>
    simp [scopedMcpConfigText, McpServerConfig.transport, McpServerConfig.payload, str]

theorem bar_not_mem_transport (config : McpServerConfig) : '|' ∉ config.transport := by
  cases config <;> simp [McpServerConfig.transport, str]

theorem bar_not_mem_timeout (timeout : Option U64) :
    '|' ∉ timeout.elim [] fun value => decimal value.val := by
  cases timeout with
  | none => exact List.not_mem_nil
  | some value =>
    intro h
    exact absurd (Nat.isDigit_of_mem_toDigits (by decide) (by decide) h) (by decide)

theorem timeout_injective {timeout timeout' : Option U64}
    (h : (timeout.elim [] fun value => decimal value.val) =
      timeout'.elim [] fun value => decimal value.val) : timeout = timeout' := by
  cases timeout with
  | none =>
    cases timeout' with
    | none => rfl
    | some value => exact absurd h.symm Nat.toDigits_ne_nil
  | some value =>
    cases timeout' with
    | none => exact absurd h Nat.toDigits_ne_nil
    | some value' =>
      have hdigits := congrArg (fun digits => Nat.ofDigitChars 10 digits 0) h
      simp only [Option.elim_some, decimal, Nat.ofDigitChars_ten_toDigits] at hdigits
      rw [Fin.ext hdigits]

theorem stdio_payload_inj (c d : McpStdioServerConfig) :
    (McpServerConfig.stdio c).payload = (McpServerConfig.stdio d).payload ↔ c.SameLine d := by
  rw [McpServerConfig.payload, McpServerConfig.payload,
    append_last_sep_inj (bar_not_mem_timeout _) (bar_not_mem_timeout _)]
  exact and_congr_right fun _ => ⟨timeout_injective, fun h => by rw [h]⟩

theorem remote_eq_iff (c d : McpRemoteServerConfig) :
    c = d ↔ c.url = d.url ∧ c.headers = d.headers ∧ c.headersHelper = d.headersHelper := by
  obtain ⟨url, headers, headersHelper⟩ := c
  obtain ⟨url', headers', headersHelper'⟩ := d
  exact McpRemoteServerConfig.mk.injEq .. ▸ Iff.rfl

/-- Under one name the text tells the transports and what follows them. -/
theorem scopedMcpConfigText_same_name (serverName : RustString) (config other : McpServerConfig) :
    scopedMcpConfigText serverName config = scopedMcpConfigText serverName other ↔
      config.transport = other.transport ∧ config.payload = other.payload := by
  rw [scopedMcpConfigText_eq, scopedMcpConfigText_eq, List.append_cancel_left_eq,
    List.cons.injEq]
  exact (and_iff_right rfl).trans
    (append_sep_inj (bar_not_mem_transport config) (bar_not_mem_transport other))

theorem scopedMcpConfigText_other_name {serverName otherName : RustString}
    (hname : serverName ≠ otherName) (config other : McpServerConfig) :
    scopedMcpConfigText serverName config = scopedMcpConfigText otherName other ↔
      RunsOn serverName config otherName other ∨ RunsOn otherName other serverName config := by
  rw [scopedMcpConfigText_eq, scopedMcpConfigText_eq, List.append_eq_append_iff]
  apply or_congr
  · constructor
    · rintro ⟨more, rfl, hmore⟩
      cases more with
      | nil => exact absurd (List.append_nil _).symm hname
      | cons c more =>
        obtain ⟨rfl, hrest⟩ := List.cons.inj hmore
        exact ⟨more, rfl, hrest⟩
    · rintro ⟨more, rfl, hmore⟩
      exact ⟨'|' :: more, rfl, congrArg ('|' :: ·) hmore⟩
  · constructor
    · rintro ⟨more, rfl, hmore⟩
      cases more with
      | nil => exact absurd (List.append_nil _) hname
      | cons c more =>
        obtain ⟨rfl, hrest⟩ := List.cons.inj hmore
        exact ⟨more, rfl, hrest⟩
    · rintro ⟨more, rfl, hmore⟩
      exact ⟨'|' :: more, rfl, congrArg ('|' :: ·) hmore⟩

end text

section told

variable (serverName : RustString) (config : McpServerConfig)
  (otherName : RustString) (other : McpServerConfig)

/-- One text stands for one server. -/
def TextTells : Prop :=
  scopedMcpConfigText serverName config = scopedMcpConfigText otherName other →
    serverName = otherName ∧ config.SameServer other

/-- Nothing of the two definitions is left out where they differ, and no separator in them
makes one look like the other. -/
def KeptApart : Prop :=
  if serverName = otherName then config.Plain other
  else ¬ RunsOn serverName config otherName other ∧ ¬ RunsOn otherName other serverName config

theorem sameServer_iff_plain :
    (config.transport = other.transport ∧ config.payload = other.payload →
      config.SameServer other) ↔ config.Plain other := by
  have hremote : ∀ c d : McpRemoteServerConfig, (c.url = d.url → c = d) ↔
      (c.url = d.url → c.headers = d.headers ∧ c.headersHelper = d.headersHelper) := by
    intro c d
    rw [remote_eq_iff]
    exact forall_congr' fun hurl => and_iff_right hurl
  cases config <;> cases other
  case stdio.stdio c d =>
    rw [stdio_payload_inj]
    exact imp_congr_left (and_iff_right rfl)
  case http.http c d => exact (imp_congr_left (and_iff_right rfl)).trans (hremote c d)
  case sse.sse c d => exact (imp_congr_left (and_iff_right rfl)).trans (hremote c d)
  case ws.ws c d => exact (imp_congr_left (and_iff_right rfl)).trans (hremote c d)
  case sdk.sdk c d =>
    refine iff_of_true (fun h => ?_) trivial
    exact congrArg McpSdkServerConfig.mk h.2
  -- the other pairs differ in the transport
  all_goals
    refine iff_of_true (fun h => absurd h.1 ?_) trivial
    simp [McpServerConfig.transport, str]

end told

/-- A definition that runs `run x y` with one argument or with two. -/
def runStdio (args : List RustString) : McpServerConfig :=
  .stdio ⟨str "run", args, .empty, none⟩

end Solarcido.Crates
