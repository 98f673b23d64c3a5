import Solarcido.Js.JsonTree
import Solarcido.Lib.InsertionMap
import Solarcido.Sessions.Store

namespace Solarcido.Api

open Text
open Json (Data)

namespace PromptCache

section hashing

/-- The same text as in the session store. -/
def mul64 (aHi aLo bHi bLo : UInt32) : UInt32 × UInt32 := Sessions.mul64 aHi aLo bHi bLo

/-- The same text as in the session store. -/
def fnv1a64 (bytes : Bytes) : UInt32 × UInt32 := Sessions.fnv1a64 bytes

def formatHex64 (hi lo : UInt32) : JsString := Sessions.hexWord hi ++ Sessions.hexWord lo

-- How the engine writes a finite number.
variable (numberText : ℚ → JsString)

/-- The order of `sort()`: by code units. -/
def unitsLe (a b : JsString) : Bool := decide (a ≤ b)

def sortedMembers (members : List (JsString × JsString)) : List (JsString × JsString) :=
  members.mergeSort fun a b => unitsLe a.1 b.1

def objectText (members : List (JsString × JsString)) : JsString :=
  js "\x7b" ++ join (js ",") ((sortedMembers members).map fun m => Json.quote m.1 ++ js ":" ++ m.2) ++
    js "\x7d"

mutual

/-- Nothing is written for `undefined`. -/
def stableJson : Data → Option JsString
  | .hole => none
  | .atom a => some (a.word numberText)
  | .text s => some (Json.quote s)
  | .arr items => some (js "[" ++ join (js ",") (stableItems items) ++ js "]")
  | .obj members => some (objectText (stableMembers members))

/-- `join` writes nothing for an item that is undefined. -/
def stableItems : List Data → List JsString
  | [] => []
  | item :: rest => (stableJson item).getD [] :: stableItems rest

/-- A text to which `undefined` is added has its name. -/
def stableMembers : List (JsString × Data) → List (JsString × JsString)
  | [] => []
  | (key, value) :: rest => (key, (stableJson value).getD (js "undefined")) :: stableMembers rest

end

/-- The members of a request; a member can be there and be undefined. -/
abbrev RequestLike := List (JsString × Data)

/-- The encoder makes no bytes of an undefined text. -/
def hashValue (value : Data) : UInt32 × UInt32 :=
  fnv1a64 (Utf8.bufferFrom ((stableJson numberText value).getD []))

def requestHashHex (request : RequestLike) : JsString :=
  let (hi, lo) := hashValue numberText (.obj request)
  js "v1-" ++ formatHex64 hi lo

end hashing

section types

def FINGERPRINT_VERSION : Nat := 1

structure CacheUsage where
  cacheCreationInputTokens : ℚ
  cacheReadInputTokens : ℚ
  inputTokens : ℚ
  outputTokens : ℚ

structure PromptCacheConfig where
  sessionId : JsString
  completionTtlSecs : ℚ
  promptTtlSecs : ℚ
  cacheBreakMinDrop : ℚ

def defaultPromptCacheConfig (sessionId : JsString) : PromptCacheConfig :=
  ⟨sessionId, 30, 5 * 60, 2000⟩

structure PromptCacheStats where
  trackedRequests : Nat
  completionCacheHits : Nat
  completionCacheMisses : Nat
  completionCacheWrites : Nat
  expectedInvalidations : Nat
  unexpectedCacheBreaks : Nat
  totalCacheCreationInputTokens : ℚ
  totalCacheReadInputTokens : ℚ
  lastCacheCreationInputTokens : Option ℚ
  lastCacheReadInputTokens : Option ℚ
  lastRequestHash : Option JsString
  lastCompletionCacheKey : Option JsString
  lastBreakReason : Option JsString
  lastCacheSource : Option JsString

def emptyStats : PromptCacheStats :=
  ⟨0, 0, 0, 0, 0, 0, 0, 0, none, none, none, none, none, none⟩

structure CacheBreakEvent where
  unexpected : Bool
  reason : JsString
  previousCacheReadInputTokens : ℚ
  currentCacheReadInputTokens : ℚ
  tokenDrop : ℚ

structure PromptCacheRecord where
  cacheBreak : Option CacheBreakEvent
  stats : PromptCacheStats

structure TrackedPromptState where
  observedAtSecs : ℚ
  fingerprintVersion : Nat
  modelHash : UInt32 × UInt32
  systemHash : UInt32 × UInt32
  toolsHash : UInt32 × UInt32
  messagesHash : UInt32 × UInt32
  cacheReadInputTokens : ℚ

end types

section tracking

variable (numberText : ℚ → JsString)

/-- A member of a request that is absent is undefined. -/
def memberHash (request : RequestLike) (name : JsString) : UInt32 × UInt32 :=
  hashValue numberText ((request.lookup name).getD .hole)

def stateFromRequest (request : RequestLike) (usage : CacheUsage) (nowSecs : ℚ) :
    TrackedPromptState where
  observedAtSecs := nowSecs
  fingerprintVersion := FINGERPRINT_VERSION
  modelHash := memberHash numberText request (js "model")
  systemHash := memberHash numberText request (js "system")
  toolsHash := memberHash numberText request (js "tools")
  messagesHash := memberHash numberText request (js "messages")
  cacheReadInputTokens := usage.cacheReadInputTokens

/-- What has changed of a prompt. -/
def changeReasons (previous current : TrackedPromptState) : List JsString :=
  (if previous.modelHash ≠ current.modelHash then [js "model changed"] else []) ++
    (if previous.systemHash ≠ current.systemHash then [js "system prompt changed"] else []) ++
    (if previous.toolsHash ≠ current.toolsHash then [js "tool definitions changed"] else []) ++
    if previous.messagesHash ≠ current.messagesHash then [js "message payload changed"] else []

def detectCacheBreak (config : PromptCacheConfig) (previous : Option TrackedPromptState)
    (current : TrackedPromptState) : Option CacheBreakEvent :=
  match previous with
  | none => none
  | some previous =>
    let tokenDrop := max 0 (previous.cacheReadInputTokens - current.cacheReadInputTokens)
    let event := fun unexpected reason => some
      ⟨unexpected, reason, previous.cacheReadInputTokens, current.cacheReadInputTokens, tokenDrop⟩
    if previous.fingerprintVersion ≠ current.fingerprintVersion then
      event false (js "fingerprint version changed (v" ++
        Number.decimal previous.fingerprintVersion ++ js " -> v" ++
        Number.decimal current.fingerprintVersion ++ js ")")
    else if tokenDrop < config.cacheBreakMinDrop then none
    else
      let elapsed := current.observedAtSecs - previous.observedAtSecs
      match changeReasons previous current with
      | [] =>
        if config.promptTtlSecs < elapsed then
          event false (js "possible prompt cache TTL expiry after " ++ numberText elapsed ++ js "s")
        else
          event true (js "cache read tokens dropped while prompt fingerprint remained stable")
      | reasons => event false (join (js ", ") reasons)

def applyUsageToStats (stats : PromptCacheStats) (usage : CacheUsage) (requestHash source : JsString) :
    PromptCacheStats :=
  { stats with
    totalCacheCreationInputTokens :=
      stats.totalCacheCreationInputTokens + usage.cacheCreationInputTokens
    totalCacheReadInputTokens := stats.totalCacheReadInputTokens + usage.cacheReadInputTokens
    lastCacheCreationInputTokens := some usage.cacheCreationInputTokens
    lastCacheReadInputTokens := some usage.cacheReadInputTokens
    lastRequestHash := some requestHash
    lastCacheSource := some source }

end tracking

structure CompletionCacheEntry (R : Type) where
  cachedAtSecs : ℚ
  fingerprintVersion : Nat
  response : R

/-- What `inMemoryStorage` holds. -/
structure CacheStorage (R : Type) where
  completions : InsertionMap JsString (CompletionCacheEntry R)
  stats : Option PromptCacheStats
  previousState : Option TrackedPromptState

def inMemoryStorage {R : Type} : CacheStorage R := ⟨.empty, none, none⟩

end PromptCache

open PromptCache

/-- A cache object and the storage it has been given. -/
structure PromptCache (R : Type) where
  storage : CacheStorage R
  stats : PromptCacheStats
  previous : Option TrackedPromptState

namespace PromptCache

variable {R : Type}

def new (storage : CacheStorage R) : PromptCache R :=
  ⟨storage, storage.stats.getD emptyStats, storage.previousState⟩

variable (config : PromptCacheConfig) (numberText : ℚ → JsString) (nowSecs : ℚ)

/-- The object and its storage with statistics that have been saved. -/
def saveStats (self : PromptCache R) (stats : PromptCacheStats) : PromptCache R :=
  { self with stats, storage := { self.storage with stats := some stats } }

def missed (stats : PromptCacheStats) (key : JsString) : PromptCacheStats :=
  { stats with
    completionCacheMisses := stats.completionCacheMisses + 1
    lastCompletionCacheKey := some key }

def deleteCompletion (self : PromptCache R) (key : JsString) : PromptCache R :=
  { self with storage :=
    { self.storage with completions := self.storage.completions.erase key } }

def lookupCompletion (request : RequestLike) (self : PromptCache R) :
    Option R × PromptCache R :=
  let key := requestHashHex numberText request
  match self.storage.completions.get key with
  | none => (none, self.saveStats (missed self.stats key))
  | some entry =>
    if entry.fingerprintVersion ≠ FINGERPRINT_VERSION ∨
        config.completionTtlSecs ≤ nowSecs - entry.cachedAtSecs then
      (none, (self.deleteCompletion key).saveStats (missed self.stats key))
    else
      (some entry.response, self.saveStats { self.stats with
        completionCacheHits := self.stats.completionCacheHits + 1
        lastCompletionCacheKey := some key })

def countBreak (stats : PromptCacheStats) (cacheBreak : Option CacheBreakEvent) :
    PromptCacheStats :=
  match cacheBreak with
  | none => stats
  | some event =>
    { stats with
      unexpectedCacheBreaks := stats.unexpectedCacheBreaks + if event.unexpected then 1 else 0
      expectedInvalidations := stats.expectedInvalidations + if event.unexpected then 0 else 1
      lastBreakReason := some event.reason }

def recordInternal (request : RequestLike) (usage : CacheUsage) (response : Option R)
    (self : PromptCache R) : PromptCacheRecord × PromptCache R :=
  let key := requestHashHex numberText request
  let current := stateFromRequest numberText request usage nowSecs
  let cacheBreak := detectCacheBreak numberText config self.previous current
  let tracked := { self.stats with trackedRequests := self.stats.trackedRequests + 1 }
  let stats := countBreak (applyUsageToStats tracked usage key (js "api-response")) cacheBreak
  let storage := { self.storage with previousState := some current }
  match response with
  | none =>
    (⟨cacheBreak, stats⟩,
      PromptCache.saveStats { self with storage, previous := some current } stats)
  | some response =>
    let stats := { stats with completionCacheWrites := stats.completionCacheWrites + 1 }
    let entry := ⟨nowSecs, FINGERPRINT_VERSION, response⟩
    let storage := { storage with completions := storage.completions.set key entry }
    (⟨cacheBreak, stats⟩,
      PromptCache.saveStats { self with storage, previous := some current } stats)

def recordResponse (request : RequestLike) (response : R) (usage : CacheUsage)
    (self : PromptCache R) : PromptCacheRecord × PromptCache R :=
  recordInternal config numberText nowSecs request usage (some response) self

def recordUsage (request : RequestLike) (usage : CacheUsage) (self : PromptCache R) :
    PromptCacheRecord × PromptCache R :=
  recordInternal config numberText nowSecs request usage none self

end PromptCache

end Solarcido.Api
