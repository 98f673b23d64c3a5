import Solarcido.Crates.ToolPairing

namespace Solarcido.Crates

open RustText Serial Sifting Wire

section caller

/-- The last message in front that is no tool message. -/
def CallerOf (before : List Value) (caller : Value) : Prop :=
  ∃ earlier tools, before = earlier ++ caller :: tools ∧ isTool caller = false ∧
    ∀ t ∈ tools, isTool t = true

/-- The id a tool message answers; where it has none the code reads the empty text. -/
def answeredId (message : Value) : RustString :=
  ((message.get (str "tool_call_id")).bind Value.asStr).getD []

/-- An assistant's message with a call of the id a tool message answers. -/
def Calls (caller message : Value) : Prop :=
  roleOf caller = some (str "assistant") ∧
    ((caller.get (str "tool_calls")).bind Value.asArray).any
      (fun toolCalls => toolCalls.any (callsTool (answeredId message))) = true

/-- A message behind an assistant's message with its call, with nothing but tool messages
between. -/
def Paired (before : List Value) (message : Value) : Prop :=
  ∃ caller, CallerOf before caller ∧ Calls caller message

/-- A tool message behind an assistant's message that has no call of it. -/
def Orphan (before : List Value) (message : Value) : Prop :=
  isTool message = true ∧
    ∃ caller, CallerOf before caller ∧ roleOf caller = some (str "assistant") ∧
      ¬ Calls caller message

theorem callerOf_iff {before : List Value} {caller : Value} :
    CallerOf before caller ↔ (before.reverse.find? fun m => !isTool m) = some caller := by
  rw [List.find?_eq_some_iff_append]
  constructor
  · rintro ⟨earlier, tools, rfl, hcaller, htools⟩
    refine ⟨by simp [hcaller], tools.reverse, earlier.reverse, by simp, ?_⟩
    intro t ht
    simp [htools t (List.mem_reverse.mp ht)]
  · rintro ⟨hcaller, tools, earlier, hsplit, htools⟩
    refine ⟨earlier.reverse, tools.reverse, ?_, by simpa using hcaller, ?_⟩
    · simpa using congrArg List.reverse hsplit
    · intro t ht
      simpa using htools t (List.mem_reverse.mp ht)

theorem CallerOf.unique {before : List Value} {caller caller' : Value} (h : CallerOf before caller)
    (h' : CallerOf before caller') : caller = caller' :=
  Option.some.inj ((callerOf_iff.mp h).symm.trans (callerOf_iff.mp h'))

theorem isDropped_iff (before : List Value) (message : Value) :
    isDropped before message = true ↔ Orphan before message := by
  rw [isDropped, Orphan]
  split
  · next htool =>
    rw [and_iff_right htool]
    simp only [callerOf_iff]
    cases hfind : before.reverse.find? fun m => !isTool m with
    | none => simp +decide
    | some caller =>
      simp only [Option.bind_some, Option.some.injEq, exists_eq_left', Calls, not_and]
      cases hrole : roleOf caller with
      | none => simp +decide
      | some role =>
        rw [Option.getD_some, Option.some.injEq]
        split
        · next hassistant => simp [hassistant, answeredId]
        · next hother => simp [hother]
  · next htool => simp [htool]

theorem not_orphan_of_paired {before : List Value} {message : Value} (h : Paired before message) :
    ¬ Orphan before message := by
  obtain ⟨caller, hcaller, hcalls⟩ := h
  rintro ⟨-, caller', hcaller', -, hnot⟩
  exact hnot (hcaller.unique hcaller' ▸ hcalls)

end caller

section sanitize

/-- Of the messages in front of a tool message only its caller is looked at. -/
def caller? (before : List Value) : Option Value := before.reverse.find? fun m => !isTool m

theorem caller?_snoc (before : List Value) (message : Value) :
    caller? (before ++ [message]) = if isTool message then caller? before else some message := by
  rw [caller?, List.reverse_concat, List.find?_cons]
  cases isTool message <;> rfl

theorem isDropped_congr (before before' : List Value) (message : Value)
    (h : caller? before = caller? before') :
    isDropped before message = isDropped before' message := by
  have hfind : (before.reverse.find? fun m => !isTool m) =
      before'.reverse.find? fun m => !isTool m := h
  rw [isDropped, isDropped, hfind]

theorem caller?_next (before before' : List Value) (message : Value)
    (h : caller? before = caller? before') :
    caller? (before ++ [message]) = caller? (before' ++ [message]) := by
  rw [caller?_snoc, caller?_snoc, h]

theorem caller?_dropped (before : List Value) (message : Value)
    (h : isDropped before message = true) : caller? (before ++ [message]) = caller? before := by
  rw [caller?_snoc, if_pos ((isDropped_iff before message).mp h).1]

/-- Each tool message is behind an assistant's message with its call. -/
def AllPaired (messages : List Value) : Prop :=
  Everywhere (fun before message _ => isTool message = true → Paired before message) messages

/-- A request's messages without the orphans among them: the tool messages behind another
message than an assistant's, or behind none, stay. -/
structure WithoutOrphans (messages sanitized : List Value) : Prop where
  paired : Everywhere (fun before message _ => isTool message = true →
    ∀ caller, CallerOf before caller → roleOf caller = some (str "assistant") →
      Calls caller message) sanitized
  sublist : sanitized.Sublist messages
  kept : ∃ keep : Nat → Bool, sanitized = keptAt keep messages ∧
    ∀ before message after, messages = before ++ message :: after →
      (isTool message = false ∨ Paired before message → keep before.length = true) ∧
        (keep before.length = false ↔ Orphan before message)
  again : sanitizeToolMessagePairing sanitized = sanitized

theorem sanitizeToolMessagePairing_withoutOrphans (messages : List Value) :
    WithoutOrphans messages (sanitizeToolMessagePairing messages) where
  paired := by
    intro before message after hsplit htool caller hcaller hassistant
    have hkept : isDropped before message = false :=
      not_drops_of_sift caller? caller?_next caller?_dropped isDropped_congr hsplit
    by_contra hcalls
    rw [(isDropped_iff before message).mpr ⟨htool, caller, hcaller, hassistant, hcalls⟩] at hkept
    cases hkept
  sublist := sift_sublist isDropped messages
  kept := by
    refine ⟨fun i => !isDropped (messages.take i) ((messages[i]?).getD .null), ?_, ?_⟩
    · apply sift_eq_keptAt isDropped
      rintro before message after rfl
      simp
    · rintro before message after rfl
      have hat : (!isDropped ((before ++ message :: after).take before.length)
          (((before ++ message :: after)[before.length]?).getD .null)) =
            !isDropped before message := by simp
      simp only [hat, Bool.not_eq_true', Bool.not_eq_false', isDropped_iff, and_true]
      rintro (hother | hpaired)
      · rw [isDropped, hother]
        rfl
      · exact Bool.eq_false_iff.mpr
          (mt (isDropped_iff before message).mp (not_orphan_of_paired hpaired))
  again := sift_sift caller? caller?_next caller?_dropped isDropped_congr messages

/-- A tool message behind a user's message. -/
def misplacedTool : List Value :=
  [.object [(str "role", .string (str "user"))],
    .object [(str "role", .string (str "tool")), (str "tool_call_id", .string (str "call_1"))]]

theorem sanitize_misplacedTool : ¬ AllPaired (sanitizeToolMessagePairing misplacedTool) := by
  have hsame : sanitizeToolMessagePairing misplacedTool = misplacedTool := rfl
  intro h
  rw [hsame] at h
  obtain ⟨caller, hcaller, hassistant, -⟩ := h [misplacedTool.head (by decide)] _ [] rfl (by decide)
  have huser : some (misplacedTool.head (by decide)) = some caller := callerOf_iff.mp hcaller
  rw [← Option.some.inj huser] at hassistant
  exact absurd hassistant (by decide)

end sanitize

end Solarcido.Crates
