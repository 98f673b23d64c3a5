import Mathlib.Algebra.Order.Ring.Rat
import Solarcido.Js.Value
import Solarcido.Lib.StableOrder

namespace Solarcido

/-- `a >= b`; a comparison with `NaN` is false. -/
def JsNumber.ge (a b : JsNumber) : Bool :=
  match a, b with
  | .nan, _ => false
  | _, .nan => false
  | a, b => !b.gt a

namespace Policies

open Text Succession

section types

inductive LaneBlocker where
  | none
  | startup
  | external
  deriving DecidableEq

inductive ReviewStatus where
  | pending
  | approved
  | rejected
  deriving DecidableEq

inductive DiffScope where
  | full
  | scoped
  deriving DecidableEq

structure LaneContext where
  laneId : JsString
  greenLevel : JsNumber
  branchFreshnessMs : JsNumber
  blocker : LaneBlocker
  reviewStatus : ReviewStatus
  diffScope : DiffScope
  completed : Bool
  reconciled : Bool

inductive ReconcileReason where
  | alreadyMerged
  | superseded
  | emptyDiff
  | manualClose
  deriving DecidableEq

inductive PolicyAction where
  | mergeToDev
  | mergeForward
  | recoverOnce
  | escalate (reason : JsString)
  | closeoutLane
  | cleanupSession
  | reconcile (reason : ReconcileReason)
  | notify (channel : JsString)
  | block (reason : JsString)
  | chain (actions : List PolicyAction)

inductive PolicyCondition where
  | and (conditions : List PolicyCondition)
  | or (conditions : List PolicyCondition)
  | greenAt (level : JsNumber)
  | staleBranch
  | startupBlocked
  | laneCompleted
  | laneReconciled
  | reviewPassed
  | scopedDiff
  | timedOut (durationMs : JsNumber)

structure PolicyRule where
  name : JsString
  condition : PolicyCondition
  action : PolicyAction
  priority : JsNumber

structure PolicyEngine where
  rules : List PolicyRule

end types

def STALE_BRANCH_THRESHOLD_MS : JsNumber := .finite (60 * 60 * 1000)

def makePolicyEngine (rules : List PolicyRule) : PolicyEngine :=
  ⟨rules.mergeSort fun a b => !(a.priority.sub b.priority).gt (.finite 0)⟩

section evaluation

mutual

def matchesCondition (context : LaneContext) : PolicyCondition → Bool
  | .and conditions => matchesEvery context conditions
  | .or conditions => matchesSome context conditions
  | .greenAt level => context.greenLevel.ge level
  | .staleBranch => context.branchFreshnessMs.ge STALE_BRANCH_THRESHOLD_MS
  | .startupBlocked => context.blocker = .startup
  | .laneCompleted => context.completed
  | .laneReconciled => context.reconciled
  | .reviewPassed => context.reviewStatus = .approved
  | .scopedDiff => context.diffScope = .scoped
  | .timedOut durationMs => context.branchFreshnessMs.ge durationMs

/-- `conditions.every(…)` -/
def matchesEvery (context : LaneContext) : List PolicyCondition → Bool
  | [] => true
  | c :: conditions => matchesCondition context c && matchesEvery context conditions

/-- `conditions.some(…)` -/
def matchesSome (context : LaneContext) : List PolicyCondition → Bool
  | [] => false
  | c :: conditions => matchesCondition context c || matchesSome context conditions

end

mutual

def flattenActions (out : List PolicyAction) : PolicyAction → List PolicyAction
  | .chain actions => flattenEach out actions
  | action => out ++ [action]

/-- The loop over the actions of a chain. -/
def flattenEach (out : List PolicyAction) : List PolicyAction → List PolicyAction
  | [] => out
  | action :: actions => flattenEach (flattenActions out action) actions

end

def evaluate (engine : PolicyEngine) (context : LaneContext) : List PolicyAction :=
  engine.rules.foldl
    (fun actions rule =>
      if matchesCondition context rule.condition then flattenActions actions rule.action
      else actions) []

end evaluation

section conditions

/-- What a condition says of a lane. -/
inductive Holds (context : LaneContext) : PolicyCondition → Prop
  | and (conditions : List PolicyCondition) :
      (∀ c ∈ conditions, Holds context c) → Holds context (.and conditions)
  | or (conditions : List PolicyCondition) (c : PolicyCondition) :
      c ∈ conditions → Holds context c → Holds context (.or conditions)
  | greenAt (level : JsNumber) :
      context.greenLevel.ge level = true → Holds context (.greenAt level)
  | staleBranch : context.branchFreshnessMs.ge STALE_BRANCH_THRESHOLD_MS = true →
      Holds context .staleBranch
  | startupBlocked : context.blocker = .startup → Holds context .startupBlocked
  | laneCompleted : context.completed = true → Holds context .laneCompleted
  | laneReconciled : context.reconciled = true → Holds context .laneReconciled
  | reviewPassed : context.reviewStatus = .approved → Holds context .reviewPassed
  | scopedDiff : context.diffScope = .scoped → Holds context .scopedDiff
  | timedOut (durationMs : JsNumber) :
      context.branchFreshnessMs.ge durationMs = true → Holds context (.timedOut durationMs)

variable {context : LaneContext}

theorem holds_and (conditions : List PolicyCondition) :
    Holds context (.and conditions) ↔ ∀ c ∈ conditions, Holds context c := by
  constructor
  · intro h
    cases h with
    | and _ h => exact h
  · exact Holds.and conditions

theorem holds_or (conditions : List PolicyCondition) :
    Holds context (.or conditions) ↔ ∃ c ∈ conditions, Holds context c := by
  constructor
  · intro h
    cases h with
    | or _ c hmem h => exact ⟨c, hmem, h⟩
  · rintro ⟨c, hmem, h⟩
    exact Holds.or conditions c hmem h

mutual

theorem matchesCondition_iff (context : LaneContext) :
    (c : PolicyCondition) → (matchesCondition context c = true ↔ Holds context c)
  | .and conditions => by
    rw [matchesCondition, holds_and, matchesEvery_iff context conditions]
  | .or conditions => by
    rw [matchesCondition, holds_or, matchesSome_iff context conditions]
  | .greenAt level => by
    rw [matchesCondition]
    exact ⟨Holds.greenAt level, fun h => by cases h; assumption⟩
  | .staleBranch => by
    rw [matchesCondition]
    exact ⟨Holds.staleBranch, fun h => by cases h; assumption⟩
  | .startupBlocked => by
    rw [matchesCondition, decide_eq_true_iff]
    exact ⟨Holds.startupBlocked, fun h => by cases h; assumption⟩
  | .laneCompleted => by
    rw [matchesCondition]
    exact ⟨Holds.laneCompleted, fun h => by cases h; assumption⟩
  | .laneReconciled => by
    rw [matchesCondition]
    exact ⟨Holds.laneReconciled, fun h => by cases h; assumption⟩
  | .reviewPassed => by
    rw [matchesCondition, decide_eq_true_iff]
    exact ⟨Holds.reviewPassed, fun h => by cases h; assumption⟩
  | .scopedDiff => by
    rw [matchesCondition, decide_eq_true_iff]
    exact ⟨Holds.scopedDiff, fun h => by cases h; assumption⟩
  | .timedOut durationMs => by
    rw [matchesCondition]
    exact ⟨Holds.timedOut durationMs, fun h => by cases h; assumption⟩

theorem matchesEvery_iff (context : LaneContext) : (conditions : List PolicyCondition) →
    (matchesEvery context conditions = true ↔ ∀ c ∈ conditions, Holds context c)
  | [] => by simp [matchesEvery]
  | c :: conditions => by
    rw [matchesEvery, Bool.and_eq_true, matchesCondition_iff context c,
      matchesEvery_iff context conditions, List.forall_mem_cons]

theorem matchesSome_iff (context : LaneContext) : (conditions : List PolicyCondition) →
    (matchesSome context conditions = true ↔ ∃ c ∈ conditions, Holds context c)
  | [] => by simp [matchesSome]
  | c :: conditions => by
    rw [matchesSome, Bool.or_eq_true, matchesCondition_iff context c,
      matchesSome_iff context conditions, List.exists_mem_cons_iff]

end

instance (context : LaneContext) (c : PolicyCondition) : Decidable (Holds context c) :=
  decidable_of_iff _ (matchesCondition_iff context c)

end conditions

section actions

mutual

/-- An action with its chains taken apart. -/
def PolicyAction.leaves : PolicyAction → List PolicyAction
  | .chain actions => leavesOfAll actions
  | action => [action]

def leavesOfAll : List PolicyAction → List PolicyAction
  | [] => []
  | action :: actions => action.leaves ++ leavesOfAll actions

end

theorem leaves_chain (actions : List PolicyAction) :
    (PolicyAction.chain actions).leaves = actions.flatMap PolicyAction.leaves := by
  rw [PolicyAction.leaves]
  induction actions with
  | nil => rfl
  | cons action actions ih => rw [leavesOfAll, ih, List.flatMap_cons]

def PolicyAction.isChain : PolicyAction → Bool
  | .chain _ => true
  | _ => false

mutual

theorem flattenActions_eq (out : List PolicyAction) :
    (action : PolicyAction) → flattenActions out action = out ++ action.leaves
  | .chain actions => by
    rw [flattenActions, leaves_chain, flattenEach_eq out actions]
  | .mergeToDev | .mergeForward | .recoverOnce | .escalate _ | .closeoutLane | .cleanupSession
  | .reconcile _ | .notify _ | .block _ => rfl

theorem flattenEach_eq (out : List PolicyAction) : (actions : List PolicyAction) →
    flattenEach out actions = out ++ actions.flatMap PolicyAction.leaves
  | [] => by simp [flattenEach]
  | action :: actions => by
    rw [flattenEach, flattenActions_eq out action, flattenEach_eq _ actions, List.flatMap_cons,
      List.append_assoc]

end

mutual

theorem leaves_not_chain :
    (action : PolicyAction) → ∀ leaf ∈ action.leaves, leaf.isChain = false
  | .chain actions => by
    intro leaf hleaf
    rw [leaves_chain] at hleaf
    obtain ⟨action, hmem, hleaf⟩ := List.mem_flatMap.mp hleaf
    exact leavesOfAll_not_chain actions action hmem leaf hleaf
  | .mergeToDev | .mergeForward | .recoverOnce | .escalate _ | .closeoutLane | .cleanupSession
  | .reconcile _ | .notify _ | .block _ => by simp [PolicyAction.leaves, PolicyAction.isChain]

theorem leavesOfAll_not_chain : (actions : List PolicyAction) →
    ∀ action ∈ actions, ∀ leaf ∈ action.leaves, leaf.isChain = false
  | [] => by simp
  | action :: actions => by
    intro a ha
    rcases List.mem_cons.mp ha with heq | ha
    · rw [heq]
      exact leaves_not_chain action
    · exact leavesOfAll_not_chain actions a ha

end

end actions

section engine

/-- The number a rule is ordered by. -/
def PolicyRule.rank (rule : PolicyRule) : ℚ :=
  match rule.priority with
  | .finite q => q
  | _ => 0

def PolicyRule.isFinite (rule : PolicyRule) : Prop := rule.priority = .finite rule.rank

variable {rules : List PolicyRule}

theorem makePolicyEngine_rules (hfinite : ∀ rule ∈ rules, rule.isFinite) :
    (makePolicyEngine rules).rules = inOrder PolicyRule.rank rules := by
  have hagree : ∀ a ∈ rules, ∀ b ∈ rules,
      (!(a.priority.sub b.priority).gt (.finite 0)) = decide (a.rank ≤ b.rank) := by
    intro a ha b hb
    rw [hfinite a ha, hfinite b hb]
    simp only [JsNumber.sub, JsNumber.neg, JsNumber.add, JsNumber.gt]
    rw [← decide_not, decide_eq_decide, not_lt]
    constructor
    · intro h
      linarith
    · intro h
      linarith
  have hmap : (makePolicyEngine rules).rules.map id = inOrder PolicyRule.rank (rules.map id) :=
    List.map_mergeSort hagree
  rwa [List.map_id, List.map_id] at hmap

theorem evaluate_eq (engine : PolicyEngine) (context : LaneContext) :
    evaluate engine context =
      (engine.rules.filter fun rule => Holds context rule.condition).flatMap
        fun rule => rule.action.leaves := by
  rw [evaluate]
  induction engine.rules using List.reverseRecOn with
  | nil => rfl
  | append_singleton rules rule ih =>
    rw [List.foldl_append, List.foldl_cons, List.foldl_nil, ih, List.filter_append,
      List.flatMap_append]
    by_cases hholds : Holds context rule.condition
    · rw [if_pos ((matchesCondition_iff context _).mpr hholds), flattenActions_eq]
      simp [hholds]
    · rw [if_neg (mt (matchesCondition_iff context _).mp hholds)]
      simp [hholds]

/-- The engine gives the actions of the rules that hold, chains taken apart, in the stable order
of the priorities. -/
theorem evaluate_makePolicyEngine (rules : List PolicyRule)
    (hfinite : ∀ rule ∈ rules, rule.isFinite) :
    (∃ ordered, IsStableOrder PolicyRule.rank rules ordered) ∧
    (∀ ordered, IsStableOrder PolicyRule.rank rules ordered → ∀ context,
      evaluate (makePolicyEngine rules) context =
        (ordered.filter fun rule => Holds context rule.condition).flatMap
          fun rule => rule.action.leaves) ∧
    ((rules.map PolicyRule.rank).Nodup → ∀ others, others.Perm rules → ∀ context,
      evaluate (makePolicyEngine others) context = evaluate (makePolicyEngine rules) context) ∧
    ∀ context, ∀ action ∈ evaluate (makePolicyEngine rules) context, action.isChain = false := by
  refine ⟨⟨_, inOrder_stable PolicyRule.rank rules⟩, ?_, ?_, ?_⟩
  · intro ordered hordered context
    rw [evaluate_eq, makePolicyEngine_rules hfinite,
      (inOrder_stable PolicyRule.rank rules).unique hordered]
  · intro hdistinct others hperm context
    have hothers : ∀ rule ∈ others, rule.isFinite := by
      intro rule hrule
      exact hfinite rule (hperm.mem_iff.mp hrule)
    rw [evaluate_eq, evaluate_eq, makePolicyEngine_rules hfinite, makePolicyEngine_rules hothers,
      inOrder_eq_of_perm hperm.symm hdistinct]
  · intro context action haction
    rw [evaluate_eq] at haction
    obtain ⟨rule, -, hleaf⟩ := List.mem_flatMap.mp haction
    exact leaves_not_chain rule.action action hleaf

/-- A rule for a green lane and one that closes every lane, in the wrong order. -/
def mergeRules : List PolicyRule :=
  [⟨js "close", .and [], .chain [.closeoutLane, .chain [.cleanupSession]], .finite 2⟩,
    ⟨js "merge", .and [.greenAt (.finite 3), .or [.laneCompleted, .reviewPassed]], .mergeToDev,
      .finite 1⟩]

/-- A finished lane at green level 3. -/
def greenLane : LaneContext where
  laneId := js "lane-a"
  greenLevel := .finite 3
  branchFreshnessMs := .finite 0
  blocker := .none
  reviewStatus := .pending
  diffScope := .full
  completed := true
  reconciled := false

theorem evaluate_mergeRules :
    evaluate (makePolicyEngine mergeRules.reverse) greenLane =
      evaluate (makePolicyEngine mergeRules) greenLane := by
  apply (evaluate_makePolicyEngine mergeRules ?_).2.2.1
  · simp [mergeRules, PolicyRule.rank]
  · exact List.reverse_perm mergeRules
  · simp [mergeRules, PolicyRule.isFinite, PolicyRule.rank]

end engine

end Policies

end Solarcido
