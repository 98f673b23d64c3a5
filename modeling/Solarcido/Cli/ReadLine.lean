import Solarcido.Js.LowerCase
import Solarcido.Js.Utf8
import Solarcido.Lib.DroppingReader

namespace Solarcido.Cli

open Text Utf8 DroppingReader

section slashCommands

structure SlashCommandSpec where
  name : JsString
  aliases : List JsString

def SLASH_COMMAND_SPECS : List SlashCommandSpec :=
  [⟨js "help", [js ""]⟩, ⟨js "status", []⟩, ⟨js "model", []⟩, ⟨js "reasoning", []⟩,
    ⟨js "approval", []⟩, ⟨js "sandbox", []⟩, ⟨js "cwd", []⟩, ⟨js "clear", []⟩, ⟨js "quiet", []⟩,
    ⟨js "verbose", []⟩, ⟨js "exit", [js "quit"]⟩, ⟨js "config", []⟩, ⟨js "sessions", []⟩,
    ⟨js "version", []⟩, ⟨js "diff", []⟩, ⟨js "init", []⟩, ⟨js "resume", []⟩]

def normalizeSlashToken (value : JsString) : JsString :=
  toLowerCase ((trim value).dropWhile fun u => u = 47)

def commandTokens (spec : SlashCommandSpec) : List JsString :=
  (spec.name :: spec.aliases).map toLowerCase

def matchingSlashCommands (query : JsString) : List SlashCommandSpec :=
  let normalized := normalizeSlashToken query
  if normalized.isEmpty then SLASH_COMMAND_SPECS
  else SLASH_COMMAND_SPECS.filter fun spec =>
    (commandTokens spec).any fun token => startsWith token normalized

end slashCommands

def ESC : Nat := 0x1B

def PASTE_END : JsString := js "\x1b[201~"

inductive EscState where
  | none
  | esc
  | csi
  | paste
  deriving DecidableEq

/-- What a call of `readLine` keeps between two characters. -/
structure LineState where
  buf : JsString
  pasteBuf : JsString
  escState : EscState
  escSeq : JsString
  menuOpen : Bool
  menuSelected : Nat
  deriving DecidableEq

/-- How a call of `readLine` ends. -/
inductive Outcome where
  | resolved (line : JsString)
  /-- Rejected with an `EOFError`. -/
  | rejected
  /-- The process has ended. -/
  | exited
  deriving DecidableEq

namespace LineState

def initial : LineState := ⟨[], [], .none, [], false, 0⟩

/-- `s.replace(/\r\n?/g, "\n")`. -/
def normalizeNewlines : JsString → JsString
  | [] => []
  | 13 :: 10 :: rest => 10 :: normalizeNewlines rest
  | u :: rest => (if u = 13 then 10 else u) :: normalizeNewlines rest

variable (self : LineState)

def closeMenu : LineState := { self with menuOpen := false }

def drawMenu : LineState :=
  let filtered := matchingSlashCommands self.buf
  { self with
    menuOpen := true
    menuSelected :=
      if self.menuSelected ≥ filtered.length then filtered.length - 1 else self.menuSelected }

/-- The menu after its text has changed. -/
def updateMenu : LineState :=
  let self := { self with menuSelected := 0 }
  if startsWith self.buf (js "/") then self.drawMenu else self.closeMenu

def onPaste (ch : JsString) : LineState :=
  let pasteBuf := self.pasteBuf ++ ch
  if endsWith pasteBuf PASTE_END then
    let content := normalizeNewlines (pasteBuf.take (pasteBuf.length - PASTE_END.length))
    { self.closeMenu with buf := self.buf ++ content, pasteBuf := [], escState := .none }
  else { self with pasteBuf }

def onEscape (ch : Nat) : LineState :=
  if ch = 91 then { self with escState := .csi, escSeq := [] }
  else if self.menuOpen then { self.closeMenu with escState := .none, buf := [] }
  else { self with escState := .none }

/-- `/[A-Za-z~]/.test(ch)`. -/
def endsSequence (ch : Nat) : Bool :=
  (65 ≤ ch && ch ≤ 90) || (97 ≤ ch && ch ≤ 122) || ch = 126

def onSequence (ch : Nat) : LineState :=
  let escSeq := self.escSeq ++ utf16 ch
  if escSeq = js "200~" then { self with escState := .paste, escSeq := [] }
  else if endsSequence ch then
    let ended := { self with escState := .none, escSeq := [] }
    if !self.menuOpen then ended
    else if escSeq = js "A" then
      { ended with menuSelected := self.menuSelected - 1 }.drawMenu
    else if escSeq = js "B" then
      let filtered := matchingSlashCommands self.buf
      { ended with menuSelected := min (filtered.length - 1) (self.menuSelected + 1) }.drawMenu
    else ended
  else { self with escSeq }

/-- The line that Enter gives. -/
def enteredLine : JsString :=
  if self.menuOpen then
    match (matchingSlashCommands self.buf)[self.menuSelected]? with
    | some choice => js "/" ++ choice.name
    | none => self.buf
  else self.buf

def onBackspace : LineState :=
  if self.buf.isEmpty then self
  else
    let erased := { self with buf := self.buf.dropLast }
    if self.menuOpen then erased.updateMenu else erased

def onPrintable (ch : Nat) : LineState :=
  let typed := { self with buf := self.buf ++ utf16 ch }
  if ch = 47 && typed.buf = js "/" then { typed with menuSelected := 0 }.drawMenu
  else if self.menuOpen then typed.updateMenu
  else typed

/-- One character of a chunk. -/
def onChar (ch : Nat) : LineState ⊕ Outcome :=
  match self.escState with
  | .paste => .inl (self.onPaste (utf16 ch))
  | .esc => .inl (self.onEscape ch)
  | .csi => .inl (self.onSequence ch)
  | .none =>
    if ch = ESC then .inl { self with escState := .esc }
    else if ch = 13 ∨ ch = 10 then .inr (.resolved self.enteredLine)
    else if ch = 127 ∨ ch = 8 then .inl self.onBackspace
    else if ch = 3 then .inr .exited
    else if ch = 4 then if self.buf.isEmpty then .inr .rejected else .inl self
    else if 32 ≤ ch ∨ ch = 9 then .inl (self.onPrintable ch)
    else .inl self

end LineState

/-- The characters of a chunk, up to one that ends the call. -/
def onData : LineState → List Nat → LineState ⊕ Outcome
  | self, [] => .inl self
  | self, ch :: rest =>
    match self.onChar ch with
    | .inl self => onData self rest
    | .inr outcome => .inr outcome

/-- A call of `readLine` that has not ended: `setEncoding` has given it a new decoder. -/
structure Listening where
  line : LineState
  decoder : Option Pending

def Listening.initial : Listening := ⟨.initial, none⟩

/-- A chunk of bytes that arrives at the listener. -/
def Listening.onChunk (self : Listening) (chunk : Bytes) : Listening ⊕ Outcome :=
  let (text, decoder) := write self.decoder chunk
  match onData self.line text with
  | .inl line => .inl ⟨line, decoder⟩
  | .inr outcome => .inr outcome

/-- After a line the shell calls `readLine` again; nothing is read after any other end. -/
def Outcome.isLast : Outcome → Bool
  | .resolved _ => false
  | _ => true

/-- A call of `readLine`, byte by byte. -/
def prompt : Reader UInt8 Listening Outcome where
  start := .initial
  step self b := self.onChunk [b]
  last := Outcome.isLast

/-- A chunk of what is typed: the listener of a call that has ended is gone. -/
def receive (t : Standing Listening Outcome) (chunk : Bytes) : Standing Listening Outcome :=
  match t.now with
  | none => t
  | some listening => prompt.settle t.results (listening.onChunk chunk)

/-- Successive calls of `readLine`, the first line of each chunk for the call that waits. -/
def readLines (chunks : List Bytes) : Standing Listening Outcome :=
  chunks.foldl receive prompt.fresh

end Solarcido.Cli
