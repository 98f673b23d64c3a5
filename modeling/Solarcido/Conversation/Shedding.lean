import Solarcido.Conversation.Compression
import Solarcido.Conversation.Pairing

namespace Solarcido.Conversation

open Text Tools Api ThrowingProgram

section recent

open LeaderGroups

variable (messages : List ChatMessage) (limit : Int)

/-- What a compaction keeps of the messages is a part at their end, made of whole groups,
with the last group in it. -/
structure KeepsLatest : Prop where
  suffix : safeRecentMessages messages limit <:+ messages
  nonempty : safeRecentMessages messages limit ≠ []
  paired : Paired (safeRecentMessages messages limit)
  latest : lastGroup isTool messages <:+ safeRecentMessages messages limit

variable {messages limit}

theorem safeRecentMessages_suffix : safeRecentMessages messages limit <:+ messages := by
  rw [safeRecentMessages]
  split
  · exact List.nil_suffix
  · exact (List.dropWhile_suffix isTool).trans (List.drop_suffix _ messages)

theorem safeRecentMessages_paired (hpaired : Paired messages) :
    Paired (safeRecentMessages messages limit) := by
  rw [safeRecentMessages]
  split
  · exact grouped_nil
  · exact grouped_dropWhile (hpaired.led.drop _)

theorem lastGroup_ne_nil (hne : messages ≠ []) (hpaired : Paired messages) :
    lastGroup isTool messages ≠ [] := by
  obtain ⟨front, message, answers, rfl, hmessage, hanswers⟩ :=
    exists_last_leader hne hpaired.fresh
  rw [lastGroup_eq hmessage hanswers]
  exact List.cons_ne_nil _ _

/-- The latest work is kept exactly when its group has no more messages than the limit. -/
theorem keepsLatest_iff (hne : messages ≠ []) (hpaired : Paired messages) (hlimit : 0 < limit) :
    KeepsLatest messages limit ↔ ((lastGroup isTool messages).length : Int) ≤ limit := by
  have hsome : safeRecentMessages messages limit =
      (messages.drop (messages.length - limit.toNat)).dropWhile isTool :=
    if_neg (Int.not_le.mpr hlimit)
  have hlatest := lastGroup_suffix_iff hne hpaired.fresh limit.toNat
  rw [← hsome] at hlatest
  have hnat : ((lastGroup isTool messages).length : Int) ≤ limit ↔
      (lastGroup isTool messages).length ≤ limit.toNat := by omega
  rw [hnat, ← hlatest]
  constructor
  · exact fun h => h.latest
  · intro h
    refine ⟨safeRecentMessages_suffix, ?_, safeRecentMessages_paired hpaired, h⟩
    intro hnil
    rw [hnil, List.suffix_nil] at h
    exact lastGroup_ne_nil hne hpaired h

end recent

section reply

/-- A message with two calls, and the answer to each. -/
def twoCalls : List ChatMessage :=
  let calls := [⟨js "call_1", js "read_file", []⟩, ⟨js "call_2", js "read_file", []⟩]
  [⟨.assistant, some [], some calls, none⟩, ⟨.tool, some (js "a"), none, some (js "call_1")⟩,
    ⟨.tool, some (js "b"), none, some (js "call_2")⟩]

theorem twoCalls_kept : KeepsLatest twoCalls 3 :=
  (keepsLatest_iff (by decide) (by decide) (by decide)).mpr (by decide)

theorem twoCalls_lost :
    Paired twoCalls ∧ safeRecentMessages twoCalls 2 = [] ∧ ¬ KeepsLatest twoCalls 2 := by
  have hnil : safeRecentMessages twoCalls 2 = [] := by decide
  exact ⟨by decide, hnil, fun h => h.nonempty hnil⟩

end reply

section estimates

/-- A code point counts three fifths of a token at most. -/
theorem estimateTokens_le_size (content : JsString) :
    estimateTokens content ≤ (3 * size content + 4) / 5 + 10 := by
  have hunits : 5 * content.length + 7 * content.countP (fun u => isCjk u.toNat) ≤
      12 * size content := by
    unfold size
    induction content using codePoints.induct with
    | case1 => exact Nat.le_refl 0
    | case2 u =>
      have hcount := List.countP_le_length (p := fun u : UInt16 => isCjk u.toNat) (l := [u])
      simp only [codePoints, List.length_singleton] at hcount ⊢
      omega
    | case3 u v rest h ih =>
      -- Both halves of a pair lie outside the ranges of `isCjk`.
      have hpair : isCjk u.toNat = false ∧ isCjk v.toNat = false := by
        simp only [isHighSurrogate, isLowSurrogate, Bool.and_eq_true, decide_eq_true_eq] at h
        constructor <;>
          simp only [isCjk, Bool.or_eq_false_iff, Bool.and_eq_false_iff,
            decide_eq_false_iff_not] <;> omega
      rw [codePoints, if_pos h]
      simp only [List.countP_cons, hpair.1, hpair.2, List.length_cons]
      simp only [Bool.false_eq_true, if_false]
      omega
    | case4 u v rest h ih =>
      have hone : (if isCjk u.toNat = true then 1 else 0) ≤ 1 := by split <;> omega
      have hunits : (u :: v :: rest).length = (v :: rest).length + 1 := rfl
      have hpoints : (codePoints (u :: v :: rest)).length =
          (codePoints (v :: rest)).length + 1 := by
        rw [codePoints, if_neg h]
        rfl
      rw [hunits, hpoints, List.countP_cons]
      omega
  have hcjk := List.countP_le_length (p := fun u : UInt16 => isCjk u.toNat) (l := content)
  rw [estimateTokens]
  omega

theorem estimateMessagesTokens_append (messages more : List ChatMessage) :
    estimateMessagesTokens (messages ++ more) =
      estimateMessagesTokens messages + estimateMessagesTokens more := by
  rw [estimateMessagesTokens, List.map_append, List.sum_append]
  rfl

theorem estimateMessagesTokens_cons (message : ChatMessage) (messages : List ChatMessage) :
    estimateMessagesTokens (message :: messages) =
      estimateMessageTokens message + estimateMessagesTokens messages := List.sum_cons

end estimates

section standins

/-- What is said in place of the messages that are dropped. -/
inductive StandIn where
  /-- The model's summary, from its reply. -/
  | summary (reply : JsString)
  | extract
  | notice

def StandIn.content (droppedText : JsString) : StandIn → JsString
  | .summary reply => formatCompactSummary reply
  | .extract => (compressSummary droppedText .default).text
  | .notice => COMPACTION_NOTICE

def StandIn.message (droppedText : JsString) (standIn : StandIn) : ChatMessage :=
  .text .user (standIn.content droppedText)

def StandIn.IsSummary : StandIn → Prop
  | .summary _ => True
  | _ => False

/-- Only the model's words can be long. -/
theorem standIn_short (droppedText : JsString) {standIn : StandIn} (h : ¬ standIn.IsSummary) :
    estimateMessageTokens (standIn.message droppedText) ≤ 2414 := by
  have hmessage : estimateMessageTokens (standIn.message droppedText) =
      4 + estimateTokens (standIn.content droppedText) := rfl
  cases standIn with
  | summary reply => exact absurd trivial h
  | extract =>
    have hsize : size (StandIn.extract.content droppedText) ≤ 4000 :=
      compressSummary_short droppedText .default
    have htokens := estimateTokens_le_size (StandIn.extract.content droppedText)
    omega
  | notice =>
    have htokens : estimateTokens COMPACTION_NOTICE ≤ 2410 := by
      have hunits : COMPACTION_NOTICE = fromCodePoints (List.map Char.toNat _) := js_eq rfl
      rw [hunits]
      decide +kernel
    rw [hmessage]
    exact Nat.add_le_add_left htokens 4

end standins

section replacing

/-- The text of some messages that are dropped. -/
def droppedText (dropped : List ChatMessage) : JsString :=
  join (js "\n") (dropped.map renderForSummary)

/-- A compaction keeps the first two messages and the recent ones as they are, and puts one
message of the user in the place of those between. -/
structure Compacted (before after dropped recent : List ChatMessage) (standIn : StandIn) :
    Prop where
  between : dropped ≠ []
  split : before = before.take 2 ++ dropped ++ recent
  replaced : after = before.take 2 ++ [standIn.message (droppedText dropped)] ++ recent

/-- The estimate of the messages is higher than before. -/
def Grows (before after : List ChatMessage) : Prop :=
  estimateMessagesTokens before < estimateMessagesTokens after

/-- A compaction changes the estimate by what stands in and what is dropped. -/
theorem Compacted.grows_iff {before after dropped recent : List ChatMessage} {standIn : StandIn}
    (h : Compacted before after dropped recent standIn) :
    Grows before after ↔ estimateMessagesTokens dropped <
      estimateMessageTokens (standIn.message (droppedText dropped)) := by
  have hbefore := congrArg estimateMessagesTokens h.split
  have hafter := congrArg estimateMessagesTokens h.replaced
  rw [estimateMessagesTokens_append, estimateMessagesTokens_append] at hbefore hafter
  rw [estimateMessagesTokens_cons] at hafter
  have hnil : estimateMessagesTokens [] = 0 := rfl
  rw [Grows]
  omega

end replacing

section runs

variable {ε : Type} (self : ConversationRuntime ε)

theorem keptRecent_suffix (messages : List ChatMessage) :
    keptRecent self messages <:+ messages.drop 2 := safeRecentMessages_suffix

theorem messages_split (messages : List ChatMessage) :
    messages = messages.take 2 ++ droppedMessages self messages ++ keptRecent self messages := by
  obtain ⟨front, hfront⟩ := keptRecent_suffix self messages
  have hmessages : messages.take 2 ++ front ++ keptRecent self messages = messages := by
    rw [List.append_assoc, hfront, List.take_append_drop]
  have hlength := congrArg List.length hmessages
  rw [List.length_append] at hlength
  have htake : messages.take (messages.length - (keptRecent self messages).length) =
      messages.take 2 ++ front := by
    have hcount : messages.length - (keptRecent self messages).length =
        (messages.take 2 ++ front).length := by omega
    rw [hcount]
    exact (List.prefix_iff_eq_take.mp ⟨_, hmessages⟩).symm
  rw [droppedMessages, htake, List.drop_left, hmessages]

theorem summarize_standIn (droppedText model : JsString) (turn : Nat) (m : Machine ε) :
    ∃ (standIn : StandIn) (m' : Machine ε), summarize self droppedText model turn m =
      .ok (standIn.content droppedText) m' := by
  rw [summarize, get_bind]
  split
  · obtain ⟨summary, m', hsummary, -⟩ := summarizeDropped_apply self droppedText model m
    rw [bind_of_ok hsummary]
    cases summary with
    | some reply => exact ⟨.summary reply, { m' with lastSummaryTurn := some turn }, rfl⟩
    | none => exact ⟨.notice, m', rfl⟩
  · by_cases hempty : (compressSummary droppedText .default).text.isEmpty = true
    · refine ⟨.notice, m, ?_⟩
      simp only [if_pos hempty]
      rfl
    · refine ⟨.extract, m, ?_⟩
      simp only [if_neg hempty]
      rfl

/-- The messages are over the budget, and there are some to drop. -/
def NeedsCompaction (messages : List ChatMessage) (budget : Int) (toolsTokens : Nat) : Prop :=
  budget < ((estimateMessagesTokens messages + toolsTokens : Nat) : Int) ∧
    droppedMessages self messages ≠ []

variable (dialogue : Dialogue) (turn : Nat) (model : JsString) (budget : Int) (toolsTokens : Nat)
  (m : Machine ε)

variable {self dialogue budget toolsTokens} in
theorem compactIfNeeded_of_not_needed
    (h : ¬ NeedsCompaction self dialogue.messages budget toolsTokens) :
    compactIfNeeded self dialogue turn model budget toolsTokens m = .ok dialogue m := by
  by_cases hnone : droppedMessages self dialogue.messages = []
  · exact compactIfNeeded_keeps self dialogue turn model budget toolsTokens m hnone
  · have hwithin : ((estimateMessagesTokens dialogue.messages + toolsTokens : Nat) : Int) ≤
        budget := Int.not_lt.mp fun hover => h ⟨hover, hnone⟩
    rw [compactIfNeeded, if_pos hwithin]
    rfl

variable {self dialogue budget toolsTokens} in
theorem compactIfNeeded_of_needed
    (h : NeedsCompaction self dialogue.messages budget toolsTokens) :
    ∃ after m' standIn,
      compactIfNeeded self dialogue turn model budget toolsTokens m = .ok after m' ∧
      Compacted dialogue.messages after.messages (droppedMessages self dialogue.messages)
        (keptRecent self dialogue.messages) standIn := by
  obtain ⟨standIn, m', hcontent⟩ := summarize_standIn self
    (droppedText (droppedMessages self dialogue.messages)) model turn m
  rw [droppedText] at hcontent
  have hdropped : (droppedMessages self dialogue.messages).isEmpty = false := by
    simpa using h.2
  refine ⟨_, _, standIn, compactIfNeeded_of_summary self h.1 hdropped hcontent, h.2,
    messages_split self dialogue.messages, ?_⟩
  rw [compactedMessages, List.append_assoc]
  rfl

/-- A compaction never throws. Where there is nothing to do it leaves all as it is; otherwise one
message takes the place of those between the first two and the recent ones, and the estimate grows
just when that message is estimated at more than they are. Without a summary of the model this needs
them to be below 2414 tokens. -/
theorem compactIfNeeded_compacted :
    keptRecent self dialogue.messages <:+ dialogue.messages.drop 2 ∧
    ∃ after m', compactIfNeeded self dialogue turn model budget toolsTokens m = .ok after m' ∧
      (¬ NeedsCompaction self dialogue.messages budget toolsTokens → after = dialogue) ∧
      (NeedsCompaction self dialogue.messages budget toolsTokens →
        ∃ dropped standIn, Compacted dialogue.messages after.messages dropped
            (keptRecent self dialogue.messages) standIn ∧
          (Grows dialogue.messages after.messages ↔ estimateMessagesTokens dropped <
            estimateMessageTokens (standIn.message (droppedText dropped))) ∧
          (Grows dialogue.messages after.messages → ¬ standIn.IsSummary →
            estimateMessagesTokens dropped < 2414)) := by
  refine ⟨keptRecent_suffix self dialogue.messages, ?_⟩
  by_cases hneeds : NeedsCompaction self dialogue.messages budget toolsTokens
  · obtain ⟨after, m', standIn, hrun, hcompacted⟩ :=
      compactIfNeeded_of_needed turn model m hneeds
    refine ⟨after, m', hrun, fun h => absurd hneeds h, fun _ =>
      ⟨_, standIn, hcompacted, hcompacted.grows_iff, ?_⟩⟩
    intro hgrows hsummary
    exact (hcompacted.grows_iff.mp hgrows).trans_le (standIn_short _ hsummary)
  · exact ⟨dialogue, m, compactIfNeeded_of_not_needed turn model m hneeds, fun _ => rfl,
      fun h => absurd h hneeds⟩

/-- A conversation whose third message is short. -/
def shortMiddle : List ChatMessage :=
  [.text .system (js "system"), .text .user (js "Goal: look"), .text .assistant (js "I look."),
    .text .user (js "Go on.")]

/-- A model that gives no summary leaves more to send than there was. -/
theorem shortMiddle_grows :
    ∃ after m', compactIfNeeded { scripted noHooks with compactionRecentLimit := 1 }
        ⟨shortMiddle, []⟩ 1 DEFAULT_MODEL 0 0 (startWith []) = .ok after m' ∧
      Grows shortMiddle after.messages := by
  refine ⟨_, _, rfl, ?_⟩
  have hunits : COMPACTION_NOTICE = fromCodePoints (List.map Char.toNat _) := js_eq rfl
  change estimateMessagesTokens shortMiddle < estimateMessagesTokens
    (compactedMessages { scripted noHooks with compactionRecentLimit := 1 } shortMiddle
      COMPACTION_NOTICE)
  rw [hunits]
  decide +kernel

end runs

end Solarcido.Conversation
