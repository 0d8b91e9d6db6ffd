import GuardSarm.Lib.Search
import GuardSarm.Sca.EventHandler
import GuardSarm.Sca.PolicyParser

/-!
# Scans of a policy

`SCAPolicy::Scan` evaluates the requirements of a policy and then its checks,
and reports a result for each. A scan relies on ids and conditions that the
parser does not ask for.

* `runsToEnd_iff`: a policy runs to the end whatever its rules give exactly
  when it has all that a scan reads.
-/

namespace GuardSarm.Sca

open List

open Indexer (Json)

inductive RuleResult where
  | invalid | found | notFound | notRun
  deriving DecidableEq

inductive ConditionType where
  | all | any | none
  deriving DecidableEq

structure CheckConditionEvaluator where
  type : ConditionType
  result : Option Bool
  totalRules : Nat
  passedRules : Nat
  hasInvalid : Bool
  hasNotRun : Bool
  unresolvedReason : String

namespace CheckConditionEvaluator

def ofType (type : ConditionType) : CheckConditionEvaluator := ⟨type, .none, 0, 0, false, false, ""⟩

def fromString (str : String) : Except String CheckConditionEvaluator :=
  if str = "all" then .ok (ofType .all)
  else if str = "any" then .ok (ofType .any)
  else if str = "none" then .ok (ofType .none)
  else .error s!"Invalid condition type: {str}"

def addResult (evaluator : CheckConditionEvaluator) (ruleResult : RuleResult) (reason : String) :
    CheckConditionEvaluator :=
  if evaluator.result.isSome then evaluator
  else
    let unresolved := ruleResult = .invalid ∨ ruleResult = .notRun
    { evaluator with
      hasInvalid := evaluator.hasInvalid || ruleResult = .invalid
      hasNotRun := evaluator.hasNotRun || ruleResult = .notRun
      unresolvedReason :=
        if unresolved ∧ reason ≠ "" then
          (if evaluator.unresolvedReason = "" then "" else evaluator.unresolvedReason ++ "\n") ++ reason
        else evaluator.unresolvedReason
      totalRules := evaluator.totalRules + 1
      passedRules := evaluator.passedRules + if ruleResult = .found then 1 else 0
      result := match evaluator.type with
        | .all => if ruleResult = .notFound then some false else .none
        | .any => if ruleResult = .found then some true else .none
        | .none => if ruleResult = .found then some false else .none }

def toResult (evaluator : CheckConditionEvaluator) : CheckResult :=
  match evaluator.result with
  | some passed => if passed then .passed else .failed
  | .none =>
    if evaluator.hasNotRun then .notRun
    else if evaluator.totalRules = 0 ∨ evaluator.hasInvalid then .notApplicable
    else match evaluator.type with
      | .all => .passed
      | .any => .failed
      | .none => .passed

end CheckConditionEvaluator

open CheckConditionEvaluator

/-- What a scan meets outside: whether it is still to go on before an evaluation, and what the
evaluation gives, by the number of the evaluation. -/
structure Surroundings (Rule : Type) where
  keepRunning : Nat → Bool
  evaluate : Nat → Rule → RuleResult × String

/-- The argument of `reportCheckResult`. -/
structure Report where
  policyId : String
  checkId : String
  result : CheckResult
  reason : String
  deriving DecidableEq

inductive Ending where
  | finished | stopped
  | raised (what : String)
  deriving DecidableEq

section scan

variable {Rule : Type} (around : Surroundings Rule)

/-- The loop over rules: the evaluator and the number of evaluations, none when the scan is stopped. -/
def evaluateRules (evaluator : CheckConditionEvaluator) :
    List Rule → Nat → Option (CheckConditionEvaluator × Nat)
  | [], n => some (evaluator, n)
  | rule :: rules, n =>
    if around.keepRunning n then
      let outcome := around.evaluate n rule
      evaluateRules (evaluator.addResult outcome.1 outcome.2) rules (n + 1)
    else none

/-- `std::bad_optional_access`. -/
def badOptionalAccess : String := "bad optional access"

def scanChecks (policyId : String) : List (PolicyCheck Rule) → Nat → List Report × Ending
  | [], _ => ([], .finished)
  | check :: checks, n =>
    match fromString check.condition with
    | .error what => ([], .raised what)
    | .ok evaluator =>
      match evaluateRules around evaluator check.rules n with
      | none => ([], .stopped)
      | some (evaluator, n) =>
        match check.id with
        | none => ([], .raised badOptionalAccess)
        | some id =>
          let result := evaluator.toResult
          let reason := if result = .notApplicable ∨ result = .notRun then evaluator.unresolvedReason
            else ""
          let others := scanChecks policyId checks n
          (⟨policyId, id, result, reason⟩ :: others.1, others.2)

/-- The loops of a policy whose requirements do not pass. -/
def reportAll (policyId : String) (result : CheckResult) (reason : String) :
    List (PolicyCheck Rule) → List Report × Ending
  | [] => ([], .finished)
  | check :: checks =>
    match check.id with
    | none => ([], .raised badOptionalAccess)
    | some id =>
      let others := reportAll policyId result reason checks
      (⟨policyId, id, result, reason⟩ :: others.1, others.2)

def scan (policy : SCAPolicy Rule) : List Report × Ending :=
  if policy.requirements.rules.isEmpty then scanChecks around policy.id policy.checks 0
  else
    match fromString policy.requirements.condition with
    | .error what => ([], .raised what)
    | .ok evaluator =>
      match evaluateRules around evaluator policy.requirements.rules 0 with
      | none => ([], .stopped)
      | some (evaluator, n) =>
        match evaluator.toResult with
        | .passed => scanChecks around policy.id policy.checks n
        | .notRun => reportAll policy.id .notRun evaluator.unresolvedReason policy.checks
        | _ => reportAll policy.id .notApplicable "Policy requirements not met" policy.checks

end scan

section runs

variable {Rule : Type} {around : Surroundings Rule} {policyId : String} {checks : List (PolicyCheck Rule)}

def Reported (policyId : String) (checks : List (PolicyCheck Rule)) (reports : List Report) : Prop :=
  reports.map (fun report => (report.policyId, some report.checkId)) =
    checks.map fun check => (policyId, check.id)

/-- Whatever its rules give, a scan raises nothing and, unless it is stopped, reports every check. -/
def RunsToEnd (policy : SCAPolicy Rule) : Prop :=
  ∀ around : Surroundings Rule, (∀ what, (scan around policy).2 ≠ .raised what) ∧
    ((scan around policy).2 ≠ .stopped → Reported policy.id policy.checks (scan around policy).1)

def ValidCondition (condition : String) : Prop :=
  condition = "all" ∨ condition = "any" ∨ condition = "none"

/-- A check has all that a scan reads. -/
def PolicyCheck.Sound (check : PolicyCheck Rule) : Prop :=
  check.id.isSome ∧ ValidCondition check.condition

structure SCAPolicy.Sound (policy : SCAPolicy Rule) : Prop where
  requirements : policy.requirements.rules ≠ [] → ValidCondition policy.requirements.condition
  checks : ∀ check ∈ policy.checks, check.Sound

variable {condition : String}

theorem fromString_ok (valid : ValidCondition condition) :
    ∃ type, fromString condition = .ok (ofType type) := by
  rcases valid with rfl | rfl | rfl
  · exact ⟨.all, rfl⟩
  · exact ⟨.any, rfl⟩
  · exact ⟨.none, rfl⟩

theorem fromString_error (invalid : ¬ValidCondition condition) :
    ∃ what, fromString condition = .error what := by
  simp only [ValidCondition, not_or] at invalid
  exact ⟨_, by rw [fromString, if_neg invalid.1, if_neg invalid.2.1, if_neg invalid.2.2]⟩

variable {check : PolicyCheck Rule}

theorem Reported.cons {id : String} (own : check.id = some id)
    {result : CheckResult} {reason : String} {reports : List Report}
    (others : Reported policyId checks reports) :
    Reported policyId (check :: checks) (⟨policyId, id, result, reason⟩ :: reports) := by
  simp only [Reported, map_cons, own]
  rw [others]

theorem reportAll_finishes (sound : ∀ check ∈ checks, check.Sound) (result : CheckResult)
    (reason : String) : (reportAll policyId result reason checks).2 = .finished ∧
      Reported policyId checks (reportAll policyId result reason checks).1 := by
  induction checks with
  | nil => exact ⟨rfl, rfl⟩
  | cons check checks ih =>
    obtain ⟨id, own⟩ := Option.isSome_iff_exists.mp (sound check mem_cons_self).1
    obtain ⟨finished, reported⟩ := ih fun other mem => sound other (mem_cons_of_mem _ mem)
    simp only [reportAll, own]
    exact ⟨finished, reported.cons own⟩

/-- A loop over checks that have all that it reads finishes or is stopped. -/
theorem scanChecks_finishes (sound : ∀ check ∈ checks, check.Sound) (n : Nat) :
    (scanChecks around policyId checks n).2 = .stopped ∨
      (scanChecks around policyId checks n).2 = .finished ∧
        Reported policyId checks (scanChecks around policyId checks n).1 := by
  induction checks generalizing n with
  | nil => exact .inr ⟨rfl, rfl⟩
  | cons check checks ih =>
    obtain ⟨named, valid⟩ := sound check mem_cons_self
    obtain ⟨id, own⟩ := Option.isSome_iff_exists.mp named
    obtain ⟨type, made⟩ := fromString_ok valid
    rw [scanChecks, made]
    cases evaluated : evaluateRules around (ofType type) check.rules n with
    | none => exact .inl (by simp only [evaluated])
    | some outcome =>
      simp only [evaluated, own]
      rcases ih (fun other mem => sound other (mem_cons_of_mem _ mem)) outcome.2 with
        stopped | ⟨finished, reported⟩
      · exact .inl stopped
      · exact .inr ⟨finished, reported.cons own⟩

/-- What each result keeps of the evaluator holds at the end of the loop. -/
theorem evaluateRules_keeps {Good : CheckConditionEvaluator → Prop}
    (running : ∀ n, around.keepRunning n = true)
    (keeps : ∀ {evaluator} n rule, Good evaluator →
      Good (evaluator.addResult (around.evaluate n rule).1 (around.evaluate n rule).2))
    {evaluator : CheckConditionEvaluator} (good : Good evaluator) (rules : List Rule) (n : Nat) :
    ∃ outcome, evaluateRules around evaluator rules n = some outcome ∧ Good outcome.1 := by
  induction rules generalizing evaluator n with
  | nil => exact ⟨_, rfl, good⟩
  | cons rule rules ih =>
    rw [evaluateRules, if_pos (running n)]
    exact ih (keeps n rule good) _

/-- A check that lacks something raises, if the loop is not stopped before. -/
theorem scanChecks_raises (running : ∀ n, around.keepRunning n = true)
    (unsound : ∃ check ∈ checks, ¬check.Sound) (n : Nat) :
    ∃ what, (scanChecks around policyId checks n).2 = .raised what := by
  induction checks generalizing n with
  | nil =>
    obtain ⟨check, mem, _⟩ := unsound
    cases mem
  | cons check checks ih =>
    by_cases valid : ValidCondition check.condition
    · obtain ⟨type, made⟩ := fromString_ok valid
      obtain ⟨outcome, evaluated, _⟩ := @evaluateRules_keeps _ _ (fun _ => True) running
        (fun _ _ _ => trivial) (ofType type) trivial check.rules n
      simp only [scanChecks, made, evaluated]
      cases own : check.id with
      | none => exact ⟨_, rfl⟩
      | some id =>
        refine ih ?_ outcome.2
        obtain ⟨other, mem, lacks⟩ := unsound
        rcases mem_cons.mp mem with rfl | mem
        · exact absurd ⟨by rw [own]; rfl, valid⟩ lacks
        · exact ⟨other, mem, lacks⟩
    · obtain ⟨what, raises⟩ := fromString_error valid
      exact ⟨what, by rw [scanChecks, raises]⟩

/-- Rules that all give the result that a condition asks for. -/
def favourable (condition : String) : Surroundings Rule :=
  ⟨fun _ => true, fun _ _ => (if condition = "none" then .notFound else .found, "")⟩

/-- The evaluator of a condition that has passed, and that the result does not turn round. -/
structure Passing (type : ConditionType) (evaluator : CheckConditionEvaluator) : Prop where
  own : evaluator.type = type
  passed : evaluator.toResult = .passed
  clean : evaluator.hasInvalid = false ∧ evaluator.hasNotRun = false

theorem Passing.addResult {type : ConditionType} {evaluator : CheckConditionEvaluator}
    (passing : Passing type evaluator) :
    Passing type (evaluator.addResult (if type = .none then .notFound else .found) "") := by
  obtain ⟨rfl, passed, invalid, notRun⟩ := passing
  cases set : evaluator.result with
  | some result =>
    rw [CheckConditionEvaluator.addResult, set]
    exact ⟨rfl, passed, invalid, notRun⟩
  | none =>
    cases own : evaluator.type with
    | any => grind [toResult]
    | all | none =>
      constructor <;> simp [CheckConditionEvaluator.addResult, toResult, set, own, invalid, notRun]

/-- Requirements with rules and a condition can be met. -/
theorem favourable_passes (valid : ValidCondition condition) {rules : List Rule}
    (some_rule : rules ≠ []) : ∃ type evaluator n, fromString condition = .ok (ofType type) ∧
      evaluateRules (favourable condition) (ofType type) rules 0 = some (evaluator, n) ∧
      evaluator.toResult = .passed := by
  obtain ⟨rule, rules, rfl⟩ := exists_cons_of_ne_nil some_rule
  have first (type : ConditionType) :
      Passing type ((ofType type).addResult (if type = .none then .notFound else .found) "") := by
    cases type <;> exact ⟨rfl, rfl, rfl, rfl⟩
  suffices ∃ type, fromString condition = .ok (ofType type) ∧ ∀ n rule,
      (favourable condition).evaluate n rule =
        (if type = ConditionType.none then .notFound else .found, "") by
    obtain ⟨type, made, gives⟩ := this
    obtain ⟨outcome, evaluated, passing⟩ := @evaluateRules_keeps Rule (favourable condition)
      (Passing type) (fun _ => rfl) (fun n rule => by rw [gives]; exact .addResult) _ (first type) rules 1
    refine ⟨type, outcome.1, outcome.2, made, ?_, passing.passed⟩
    rw [evaluateRules, gives]
    exact evaluated
  rcases valid with rfl | rfl | rfl
  · exact ⟨.all, rfl, fun _ _ => rfl⟩
  · exact ⟨.any, rfl, fun _ _ => rfl⟩
  · exact ⟨.none, rfl, fun _ _ => rfl⟩

/-- A policy that has all that a scan reads runs to the end. -/
theorem runsToEnd_of_sound {policy : SCAPolicy Rule} (sound : policy.Sound) : RunsToEnd policy := by
  intro around
  suffices (scan around policy).2 = .stopped ∨ (scan around policy).2 = .finished ∧
      Reported policy.id policy.checks (scan around policy).1 by
    rcases this with stopped | ⟨finished, reported⟩
    · exact ⟨fun what => by rw [stopped]; nofun, fun running => absurd stopped running⟩
    · exact ⟨fun what => by rw [finished]; nofun, fun _ => reported⟩
  rw [scan]
  split
  · exact scanChecks_finishes sound.checks 0
  · rename_i some_rule
    obtain ⟨type, made⟩ := fromString_ok (sound.requirements (by simpa using some_rule))
    rw [made]
    cases evaluated : evaluateRules around (ofType type) policy.requirements.rules 0 with
    | none => exact .inl (by simp only [evaluated])
    | some outcome =>
      simp only [evaluated]
      split
      · exact scanChecks_finishes sound.checks _
      · exact .inr (reportAll_finishes sound.checks _ _)
      · exact .inr (reportAll_finishes sound.checks _ _)

/-- A policy that lacks something raises when its requirements are met. -/
theorem raises_of_unsound {policy : SCAPolicy Rule} (unsound : ¬policy.Sound) :
    ∃ around what, (scan around policy).2 = .raised what := by
  refine ⟨favourable policy.requirements.condition, ?_⟩
  rw [scan]
  by_cases rules : policy.requirements.rules = []
  · rw [if_pos (by simpa using rules)]
    refine scanChecks_raises (fun _ => rfl) ?_ 0
    by_contra all
    push Not at all
    exact unsound ⟨fun some_rule => absurd rules some_rule, all⟩
  · rw [if_neg (by simpa using rules)]
    by_cases valid : ValidCondition policy.requirements.condition
    · obtain ⟨type, evaluator, n, made, evaluated, passed⟩ := favourable_passes valid rules
      simp only [made, evaluated, passed]
      refine scanChecks_raises (fun _ => rfl) ?_ n
      by_contra all
      push Not at all
      exact unsound ⟨fun _ => valid, all⟩
    · obtain ⟨what, raises⟩ := fromString_error valid
      exact ⟨what, by rw [raises]⟩

theorem runsToEnd_iff (policy : SCAPolicy Rule) : RunsToEnd policy ↔ policy.Sound := by
  refine ⟨fun runs => ?_, runsToEnd_of_sound⟩
  by_contra unsound
  obtain ⟨around, what, raised⟩ := raises_of_unsound unsound
  exact (runs around).1 what raised

end runs

section documents

variable {Rule : Type} {createEvaluator : String → Except String (Option Rule)} {node : Json}

/-- A node that the parser adds as a check: an object or null, without a condition that is another
text, and without a rule that raises. -/
structure Usable (createEvaluator : String → Except String (Option Rule)) (node : Json) : Prop where
  writable : node = .null ∨ ∃ fields, node = .object fields
  condition : ∀ {condition}, node.field "condition" = some (.string condition) → ValidCondition condition
  rules : ∀ {rule}, .string rule ∈ rulesOf node → ∃ evaluator, createEvaluator rule = .ok evaluator

/-- A document has what a scan of it reads: an id and a condition for every check that is added, and a
condition for requirements with a rule. -/
structure Complete (createEvaluator : String → Except String (Option Rule)) (document : Json) : Prop where
  checks : ∀ {nodes}, document.field "checks" = some (.array nodes) → ∀ node ∈ nodes,
    Usable createEvaluator node →
    (parseId node).isSome ∧ ∃ condition, node.field "condition" = some (.string condition)
  requirements : ∀ {fields}, document.field "requirements" = some (.object fields) →
    (∃ rule evaluator, .string rule ∈ rulesOf (.object fields) ∧
      createEvaluator rule = .ok (some evaluator)) →
    ∃ condition, (Json.object fields).field "condition" = some (.string condition)

theorem validCondition_iff :
    validateConditionString condition = .ok () ↔ ValidCondition condition := by
  unfold validateConditionString ValidCondition
  split
  · rename_i valid
    tauto
  · rename_i invalid
    tauto

theorem parseCondition_ok_iff : parseCondition node = .ok condition ↔
      (node.field "condition" = some (.string condition) ∧ ValidCondition condition) ∨
      condition = "" ∧ ∀ text, node.field "condition" ≠ some (.string text) := by
  unfold parseCondition
  split
  · rename_i text found
    have checked : (∃ done, validateConditionString text = .ok done) ↔ ValidCondition text :=
      (Unique.exists_iff (p := fun _ : Unit => _)).trans validCondition_iff
    simp only [Search.bind_ok_iff, pure, Except.pure, Except.ok.injEq, exists_and_right, checked]
    grind
  · rename_i none
    simp only [pure, Except.pure, Except.ok.injEq]
    grind

/-- The condition that was parsed can be evaluated exactly when the node has one. -/
theorem parsed_validCondition_iff (parsed : parseCondition node = .ok condition) :
    ValidCondition condition ↔ ∃ text, node.field "condition" = some (.string text) := by
  rcases parseCondition_ok_iff.mp parsed with ⟨found, valid⟩ | ⟨rfl, none⟩
  · exact ⟨fun _ => ⟨condition, found⟩, fun _ => valid⟩
  · refine ⟨fun valid => ?_, fun ⟨text, found⟩ => absurd found (none text)⟩
    simp [ValidCondition] at valid

variable {nodes : List Json}

theorem parseRules_ok_iff : (∃ rules, parseRules createEvaluator nodes = .ok rules) ↔
      ∀ rule, .string rule ∈ nodes → ∃ evaluator, createEvaluator rule = .ok evaluator := by
  fun_induction parseRules createEvaluator nodes with
  | case1 => simp
  | case2 rule nodes ih =>
    simp only [Search.bind_ok_iff, pure, Except.pure, Except.ok.injEq]
    grind
  | case3 node nodes other ih => grind

theorem parseRules_ne_nil_iff {rules : List (String × Rule)}
    (parsed : parseRules createEvaluator nodes = .ok rules) :
    rules ≠ [] ↔ ∃ rule evaluator, .string rule ∈ nodes ∧ createEvaluator rule = .ok (some evaluator) := by
  fun_induction parseRules createEvaluator nodes generalizing rules with
  | case1 =>
    cases parsed
    simp
  | case2 rule nodes ih =>
    obtain ⟨evaluator, made, rest⟩ := Search.bind_ok_iff.mp parsed
    obtain ⟨others, parsedOthers, same⟩ := Search.bind_ok_iff.mp rest
    cases same
    cases evaluator <;> grind
  | case3 node nodes other ih =>
    grind

theorem setField_ok_iff {json : Json} {name : String} {value : Json} :
    (∃ written, setField json name value = .ok written) ↔ json = .null ∨ ∃ fields, json = .object fields := by
  cases json <;> simp [setField]

theorem setField_object {json written : Json} {name : String} {value : Json}
    (set : setField json name value = .ok written) : ∃ fields, written = .object fields := by
  cases json <;> simp only [setField, reduceCtorEq, Except.ok.injEq] at set
  · exact ⟨_, set.symm⟩
  · exact ⟨_, set.symm⟩

theorem setId_object {json written : Json} {id : Option String} (object : ∃ fields, json = .object fields)
    (set : setId json id = .ok written) : ∃ fields, written = .object fields := by
  cases id with
  | none =>
    cases set
    exact object
  | some id => exact setField_object set

theorem validateComplianceKeys_object (fields : List (String × Json)) :
    ∃ fields', validateComplianceKeys (.object fields) = .object fields' := by
  rw [validateComplianceKeys]
  split <;> exact ⟨_, rfl⟩

theorem parseCheck_ok {policyId : String} {output : Json}
    (parsed : parseCheck createEvaluator policyId node = .ok (check, output)) :
    Usable createEvaluator node ∧ check.id = parseId node ∧ parseCondition node = .ok check.condition := by
  obtain ⟨condition, parsedCondition, rest⟩ := Search.bind_ok_iff.mp parsed
  obtain ⟨emptied, set, rest⟩ := Search.bind_ok_iff.mp rest
  obtain ⟨numbered, _, rest⟩ := Search.bind_ok_iff.mp rest
  obtain ⟨rules, parsedRules, rest⟩ := Search.bind_ok_iff.mp rest
  obtain ⟨valid, _, rest⟩ := Search.bind_ok_iff.mp rest
  obtain ⟨output', _, same⟩ := Search.bind_ok_iff.mp rest
  cases same
  refine ⟨⟨setField_ok_iff.mp ⟨emptied, set⟩, fun {text} found => ?_, fun {rule} mem => ?_⟩, rfl,
    parsedCondition⟩
  · rcases parseCondition_ok_iff.mp parsedCondition with ⟨found', valid⟩ | ⟨_, none⟩
    · cases found.symm.trans found'
      exact valid
    · exact absurd found (none text)
  · exact parseRules_ok_iff.mp ⟨rules, parsedRules⟩ rule mem

theorem parseCheck_of_usable (usable : Usable createEvaluator node) (policyId : String) :
    ∃ check output, parseCheck createEvaluator policyId node = .ok (check, output) := by
  obtain ⟨condition, parsedCondition⟩ : ∃ condition, parseCondition node = .ok condition := by
    by_cases text : ∃ text, node.field "condition" = some (.string text)
    · obtain ⟨text, found⟩ := text
      exact ⟨text, parseCondition_ok_iff.mpr (.inl ⟨found, usable.condition found⟩)⟩
    · push Not at text
      exact ⟨"", parseCondition_ok_iff.mpr (.inr ⟨rfl, text⟩)⟩
  obtain ⟨emptied, set⟩ := (@setField_ok_iff node "rules" (.array [])).mpr usable.writable
  obtain ⟨fields, rfl⟩ := setField_object set
  obtain ⟨numbered, setNumber⟩ : ∃ numbered, setId (.object fields) (parseId node) = .ok numbered := by
    cases parseId node with
    | none => exact ⟨_, rfl⟩
    | some id => exact ⟨_, rfl⟩
  obtain ⟨fields', rfl⟩ := setId_object ⟨fields, rfl⟩ setNumber
  obtain ⟨rules, parsedRules⟩ := parseRules_ok_iff.mpr fun rule mem => usable.rules mem
  obtain ⟨fields'', validated⟩ := validateComplianceKeys_object
    (put fields' "rules" (.array (rules.map fun rule => .string rule.1)))
  refine ⟨⟨parseId node, condition, rules.map (·.2)⟩, .object (put fields'' "policy_id" (.string policyId)),
    Search.bind_ok_iff.mpr ⟨condition, parsedCondition, Search.bind_ok_iff.mpr ⟨_, set,
      Search.bind_ok_iff.mpr ⟨_, setNumber, Search.bind_ok_iff.mpr ⟨rules, parsedRules,
        Search.bind_ok_iff.mpr ⟨_, rfl, Search.bind_ok_iff.mpr ⟨_, ?_, rfl⟩⟩⟩⟩⟩⟩⟩
  rw [validated]
  rfl

/-- A check that was added has all that a scan reads exactly when its node has. -/
theorem check_sound_iff {policyId : String} {output : Json}
    (parsed : parseCheck createEvaluator policyId node = .ok (check, output)) : check.Sound ↔
      (parseId node).isSome ∧ ∃ condition, node.field "condition" = some (.string condition) := by
  obtain ⟨_, id, condition⟩ := parseCheck_ok parsed
  rw [PolicyCheck.Sound, id, parsed_validCondition_iff condition]

theorem requirements_sound_iff {document : Json} {requirements : PolicyCheck Rule}
    {output : Option Json} (parsed : requirementsOf createEvaluator document = .ok (requirements, output)) :
    (requirements.rules ≠ [] → ValidCondition requirements.condition) ↔
      ∀ {fields}, document.field "requirements" = some (.object fields) →
        (∃ rule evaluator, .string rule ∈ rulesOf (.object fields) ∧
          createEvaluator rule = .ok (some evaluator)) →
        ∃ condition, (Json.object fields).field "condition" = some (.string condition) := by
  unfold requirementsOf at parsed
  split at parsed
  · rename_i fields found
    obtain ⟨condition, parsedCondition, rest⟩ := Search.bind_ok_iff.mp parsed
    obtain ⟨rules, parsedRules, same⟩ := Search.bind_ok_iff.mp rest
    cases same
    simp only [ne_eq, map_eq_nil_iff]
    rw [← ne_eq, parseRules_ne_nil_iff parsedRules, parsed_validCondition_iff parsedCondition]
    constructor
    · intro sound fields' found'
      cases found.symm.trans found'
      exact sound
    · exact fun complete => complete found
  · rename_i none
    cases parsed
    exact ⟨fun _ fields found => absurd found (none fields), fun _ some_rule => absurd rfl some_rule⟩

theorem mem_parseChecks {policyId : String} :
    check ∈ (parseChecks createEvaluator policyId nodes).map (·.1) ↔
      ∃ node ∈ nodes, ∃ output, parseCheck createEvaluator policyId node = .ok (check, output) := by
  have toOption : ∀ node parsed, (parseCheck createEvaluator policyId node).toOption = some parsed ↔
      parseCheck createEvaluator policyId node = .ok parsed := by
    intro node parsed
    cases parseCheck createEvaluator policyId node <;> simp [Except.toOption]
  simp only [parseChecks, mem_map, mem_filterMap, toOption, Prod.exists, exists_and_right,
    exists_eq_right]
  constructor
  · rintro ⟨output, node, mem, parsed⟩
    exact ⟨node, mem, output, parsed⟩
  · rintro ⟨node, mem, output, parsed⟩
    exact ⟨output, node, mem, parsed⟩

/-- **Parsed policies.** The policy of a document runs to the end, whatever its rules give, exactly
when the document has what a scan reads. -/
theorem parsed_runs_to_end_iff {document : Json} {before after : PoliciesAndChecks}
    {policy : SCAPolicy Rule} (parsed : parsePolicy createEvaluator document before = (some policy, after)) :
    RunsToEnd policy ↔ Complete createEvaluator document := by
  rw [runsToEnd_iff]
  unfold parsePolicy at parsed
  split at parsed
  · simp only at parsed
    split at parsed
    · cases parsed
    · rename_i requirements output requirementsParsed
      split at parsed
      · rename_i nodes checksFound
        cases parsed
        constructor
        · intro sound
          refine ⟨fun {nodes'} found node mem usable => ?_,
            (requirements_sound_iff requirementsParsed).mp sound.requirements⟩
          cases checksFound.symm.trans found
          obtain ⟨check, output, made⟩ := parseCheck_of_usable usable _
          exact (check_sound_iff made).mp (sound.checks check (mem_parseChecks.mpr ⟨node, mem, output, made⟩))
        · intro complete
          refine ⟨(requirements_sound_iff requirementsParsed).mpr complete.requirements,
            fun check mem => ?_⟩
          obtain ⟨node, mem, output, made⟩ := mem_parseChecks.mp mem
          exact (check_sound_iff made).mpr (complete.checks checksFound node mem (parseCheck_ok made).1)
      · cases parsed
  · cases parsed

/-- A check of a policy, with or without its condition. -/
def policyWithCheck (fields : List (String × Json)) : Json :=
  .object [("policy", .object [("id", .string "cis")]),
    ("checks", .array [.object (("id", .string "1") :: fields)])]

theorem parsed_runs_to_end_iff_condition :
    ∃ policy after, parsePolicy (fun _ => .ok (none : Option Unit))
        (policyWithCheck [("condition", .string "all")]) ⟨[], [], none⟩ = (some policy, after) ∧
      (RunsToEnd policy ↔ Complete (fun _ => .ok (none : Option Unit))
        (policyWithCheck [("condition", .string "all")])) :=
  ⟨_, _, rfl, @parsed_runs_to_end_iff Unit _ _ ⟨[], [], none⟩ _ _ rfl⟩

/-- A check without a condition is parsed, and the scan of its policy raises. -/
theorem missing_condition_raises :
    ∃ policy after, parsePolicy (fun _ => .ok (none : Option Unit)) (policyWithCheck []) ⟨[], [], none⟩ =
        (some policy, after) ∧ policy.checks.map (·.id) = [some "1"] ∧
      scan ⟨fun _ => true, fun _ _ => (.found, "")⟩ policy =
        ([], .raised "Invalid condition type: ") ∧ ¬RunsToEnd policy := by
  refine ⟨_, _, rfl, rfl, rfl, fun runs => ?_⟩
  exact (runs ⟨fun _ => true, fun _ _ => (.found, "")⟩).1 "Invalid condition type: " rfl

end documents

end GuardSarm.Sca
