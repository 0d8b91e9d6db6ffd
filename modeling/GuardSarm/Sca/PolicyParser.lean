import GuardSarm.Indexer.Response

/-!
# Policy documents

`PolicyParser::ParsePolicy` on the document that the YAML file gives, after its
variables are replaced. `CreateEvaluator` is a parameter: it gives an evaluator
for the text of a rule, nothing, or raises.
-/

namespace GuardSarm.Sca

open Indexer (Json)

/-- A check of a policy, or its requirements. -/
structure PolicyCheck (Rule : Type) where
  id : Option String
  condition : String
  rules : List Rule

/-- `SCAPolicy`. -/
structure SCAPolicy (Rule : Type) where
  id : String
  requirements : PolicyCheck Rule
  checks : List (PolicyCheck Rule)

/-- What the parser adds to for the loader. -/
structure PoliciesAndChecks where
  policies : List Json
  checks : List Json
  requirements : Option Json

def put (fields : List (String × Json)) (name : String) (value : Json) : List (String × Json) :=
  if fields.any (·.1 = name) then fields.map fun field => if field.1 = name then (name, value) else field
  else fields ++ [(name, value)]

/-- `json[name] = value`: null becomes an object, what is neither raises. -/
def setField (json : Json) (name : String) (value : Json) : Except String Json :=
  match json with
  | .null => .ok (.object [(name, value)])
  | .object fields => .ok (.object (put fields name value))
  | _ => .error "cannot use operator[] with a string argument"

def validateConditionString (value : String) : Except String Unit :=
  if value = "any" ∨ value = "none" ∨ value = "all" then .ok ()
  else .error s!"Invalid condition: {value}"

def allowedComplianceKeys : List String :=
  ["cmmc", "fedramp", "gdpr", "hipaa", "iso_27001", "nis2", "nist_800_171", "nist_800_53", "pci_dss",
    "tsc"]

def validateComplianceKeys : Json → Json
  | .object fields =>
    match fields.lookup "compliance" with
    | some (.object keys) =>
      .object (put fields "compliance" (.object (keys.filter fun key => key.1 ∈ allowedComplianceKeys)))
    | some .null => .object fields
    | none => .object fields
    | some _ => .object (fields.filter (·.1 ≠ "compliance"))
  | json => json

section parse

variable {Rule : Type} (createEvaluator : String → Except String (Option Rule))

/-- The texts of the rules that have an evaluator, with their evaluators. -/
def parseRules : List Json → Except String (List (String × Rule))
  | [] => .ok []
  | .string rule :: rules => do
    let ruleEvaluator ← createEvaluator rule
    let others ← parseRules rules
    return (ruleEvaluator.map fun evaluator => (rule, evaluator)).toList ++ others
  | _ :: rules => parseRules rules

def rulesOf (node : Json) : List Json :=
  match node.field "rules" with
  | some (.array rules) => rules
  | _ => []

def parseId (node : Json) : Option String :=
  match node.field "id" with
  | some (.string id) => some id
  | some (.number id) => some (toString id)
  | _ => none

/-- The condition, or an empty text when there is none that is a text. -/
def parseCondition (node : Json) : Except String String :=
  match node.field "condition" with
  | some (.string condition) => do
    validateConditionString condition
    return condition
  | _ => return ""

/-- The output always has a text as its id, if there is one. -/
def setId (json : Json) : Option String → Except String Json
  | some id => setField json "id" (.string id)
  | none => .ok json

/-- The loop over the checks for one of them: the check and its output for the loader. -/
def parseCheck (policyId : String) (checkNode : Json) : Except String (PolicyCheck Rule × Json) := do
  let id := parseId checkNode
  let condition ← parseCondition checkNode
  let emptied ← setField checkNode "rules" (.array [])
  let numbered ← setId emptied id
  let rules ← parseRules createEvaluator (rulesOf checkNode)
  let checkWithValidRules ← setField numbered "rules" (.array (rules.map fun rule => .string rule.1))
  let output ← setField (validateComplianceKeys checkWithValidRules) "policy_id" (.string policyId)
  return (⟨id, condition, rules.map (·.2)⟩, output)

/-- A check that raises is skipped. -/
def parseChecks (policyId : String) (nodes : List Json) : List (PolicyCheck Rule × Json) :=
  nodes.filterMap fun node => (parseCheck createEvaluator policyId node).toOption

def requirementsOutput (node : Json) (condition : String) (rules : List String) : Json :=
  let name := match node.field "name", node.field "title" with
    | some (.string name), _ => [("name", Json.string name)]
    | _, some (.string title) => [("name", Json.string title)]
    | _, _ => []
  .object ((if rules.isEmpty then [] else [("rules", .array (rules.map .string))]) ++ name ++
    if condition = "" then [] else [("condition", .string condition)])

def parseRequirements (node : Json) : Except String (PolicyCheck Rule × Option Json) := do
  let condition ← parseCondition node
  let rules ← parseRules createEvaluator (rulesOf node)
  return (⟨none, condition, rules.map (·.2)⟩, if rules.isEmpty && condition = "" then none
    else some (requirementsOutput node condition (rules.map (·.1))))

/-- The requirements of a document. Without an object there are none. -/
def requirementsOf (document : Json) : Except String (PolicyCheck Rule × Option Json) :=
  match document.field "requirements" with
  | some (.object fields) => parseRequirements createEvaluator (.object fields)
  | _ => .ok (⟨none, "", []⟩, none)

/-- `ParsePolicy`: the policy, or none for a null pointer. -/
def parsePolicy (document : Json) (policiesAndChecks : PoliciesAndChecks) :
    Option (SCAPolicy Rule) × PoliciesAndChecks :=
  match document.field "policy" with
  | some (.object policyNode) =>
    let policyId := match policyNode.lookup "id" with
      | some (.string id) => id
      | _ => ""
    let added := { policiesAndChecks with
      policies := policiesAndChecks.policies ++ [.object policyNode] }
    match requirementsOf createEvaluator document with
    | .error _ => (none, added)
    | .ok (requirements, output) =>
      let added := { added with requirements := output <|> added.requirements }
      match document.field "checks" with
      | some (.array nodes) =>
        let checks := parseChecks createEvaluator policyId nodes
        (some ⟨policyId, requirements, checks.map (·.1)⟩,
          { added with checks := added.checks ++ checks.map (·.2) })
      | _ => (none, added)
  | _ => (none, policiesAndChecks)

end parse

end GuardSarm.Sca
