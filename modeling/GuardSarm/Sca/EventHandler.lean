import GuardSarm.Lib.RowSync

/-!
# Policy loads and check results

The two tables of the SCA module, the loads of `sca_policy_loader` that bring
them in line with the policy files, the results that a scan reports, and the
stateful messages that `sca_event_handler` pushes for both. Stateful messages
are allowed, there is no sync limit, and every message passes the validation.

The columns of a row other than those the two files look at are one value. An
id of a document is the text that its SHA-1 is taken of.
-/

namespace GuardSarm.Sca

open RowSync

abbrev Id := String

inductive CheckResult where
  | passed | failed | notApplicable | notRun
  deriving DecidableEq

/-- A row of `sca_check`, under its id. -/
structure Check (C : Type) where
  policyId : Id
  content : C
  result : CheckResult
  reason : Option String
  deriving DecidableEq

structure PolicyData (P : Type) where
  id : Id
  content : P

/-- A check of a load. `raw` is what the columns take from the document before it is normalised. -/
structure CheckData (C : Type) where
  id : Id
  policyId : Id
  content : C
  raw : C

/-- The policies and checks of a load. `ParsePolicy` gives a check the id of a policy it has added. A
row with an empty id is refused as invalid data. -/
structure LoadData (P C : Type) where
  policies : List (PolicyData P)
  checks : List (CheckData C)
  known : ∀ check ∈ checks, ∃ policy ∈ policies, policy.id = check.policyId
  named : (∀ policy ∈ policies, policy.id ≠ "") ∧ ∀ check ∈ checks, check.id ≠ ""

inductive Operation where
  | create | modify | delete
  deriving DecidableEq

/-- `OPERATION_STATES_MAP`. -/
def operationOf : Returned → Operation
  | .inserted => .create
  | .modified => .modify
  | .deleted => .delete

/-- `CalculateHashId`. -/
def calculateHashId (policyId checkId : Id) : String := policyId ++ ":" ++ checkId

structure State (P C : Type) where
  policies : Rows Id P
  checks : Rows Id (Check C)
  /-- `m_syncedIds`. -/
  syncedIds : List Id
  pushed : List (String × Operation)

variable {P C : Type} [DecidableEq P] [DecidableEq C]

def State.initial : State P C := ⟨∅, ∅, [], []⟩

def policyColumns : Columns Id P (PolicyData P) where
  key := PolicyData.id
  fresh := PolicyData.content
  agrees row d := row = d.content
  merge _ d := d.content
  agrees_fresh _ := by simp
  agrees_merge _ _ := by simp

/-- A load gives no result: a new row has the default of the column, an old one keeps what it has. -/
def checkColumns : Columns Id (Check C) (CheckData C) where
  key := CheckData.id
  fresh d := ⟨d.policyId, d.content, .notRun, none⟩
  agrees row d := row.policyId = d.policyId && row.content = d.content
  merge row d := { row with policyId := d.policyId, content := d.content }
  agrees_fresh _ := by simp
  agrees_merge _ _ := by simp

section load

omit [DecidableEq P] [DecidableEq C]

/-- A check with the result "Not run". -/
def updateCheckResult (checks : Rows Id (Check C)) (id policyId : Id) (content : C) :
    Rows Id (Check C) :=
  match checks.lookup id with
  | none => checks.insert id ⟨policyId, content, .notRun, none⟩
  | some row => checks.insert id { row with policyId, content, result := .notRun }

/-- Checks that were modified have not run. -/
def markModified (modifiedChecks : Rows Id (Delta (Check C))) (checks : Rows Id (Check C)) :
    Rows Id (Check C) :=
  modifiedChecks.entries.foldl (fun checks entry =>
    if entry.2.returned = .modified then
      updateCheckResult checks entry.1 entry.2.row.policyId entry.2.row.content
    else checks) checks

/-- Neither have the other checks of a policy that was modified. -/
def markOfModifiedPolicies (data : LoadData P C) (modifiedPolicies : Rows Id (Delta P))
    (modifiedChecks : Rows Id (Delta (Check C))) (checks : Rows Id (Check C)) : Rows Id (Check C) :=
  modifiedPolicies.entries.foldl (fun checks policyEntry =>
    if policyEntry.2.returned = .modified then
      data.checks.foldl (fun checks d =>
        if d.policyId = policyEntry.1 && (modifiedChecks.lookup d.id).isNone then
          updateCheckResult checks d.id d.policyId d.raw
        else checks) checks
    else checks) checks

/-- An event of `ProcessEvents`. The policy is missing when the database does not have it. -/
structure Event (C : Type) where
  policy : Option Id
  checkId : Id
  check : Check C
  returned : Returned

/-- The events of the checks of a policy that changed. -/
def policyEvents (checks : Rows Id (Check C)) (modifiedPolicies : Rows Id (Delta P))
    (modifiedChecks : Rows Id (Delta (Check C))) : List (Event C) :=
  modifiedPolicies.entries.flatMap fun policyEntry =>
    let checksForPolicy := checks.entries.filter fun check => check.2.policyId = policyEntry.1
    (checksForPolicy.filter fun check => (modifiedChecks.lookup check.1).isNone).map fun check =>
      ⟨some policyEntry.1, check.1, check.2, policyEntry.2.returned⟩

/-- The events of the checks that changed. Those that a load has put in or modified have not run. -/
def checkEvents (policies : Rows Id P) (modifiedPolicies : Rows Id (Delta P))
    (modifiedChecks : Rows Id (Delta (Check C))) : List (Event C) :=
  modifiedChecks.entries.map fun entry =>
    let check := match entry.2.returned with
      | .deleted => entry.2.row
      | _ => { entry.2.row with result := .notRun }
    let known := (modifiedPolicies.lookup check.policyId).isSome ||
      (policies.lookup check.policyId).isSome
    ⟨if known then some check.policyId else none, entry.1, check, entry.2.returned⟩

def processStateful (event : Event C) : Option (String × Operation) :=
  if event.check.result = .notRun then none
  else event.policy.map fun policyId =>
    (calculateHashId policyId event.checkId, operationOf event.returned)

/-- `shouldSyncInsert`, `shouldSyncModify` and `handleDelete` without a limit. -/
def shouldPushStateful (syncedIds : List Id) (event : Event C) : Bool × List Id :=
  match event.returned with
  | .inserted => (true, event.checkId :: syncedIds)
  | .modified => (true, syncedIds)
  | .deleted => (syncedIds.contains event.checkId, syncedIds.filter (· != event.checkId))

def reportEvent (state : List Id × List (String × Operation)) (event : Event C) :
    List Id × List (String × Operation) :=
  let should := shouldPushStateful state.1 event
  match processStateful event with
  | some message => (should.2, if should.1 then state.2 ++ [message] else state.2)
  | none => (should.2, state.2)

/-- An order of the events: that of an `unordered_map` is not specified. -/
structure Arrangement (C : Type) where
  order : List (Event C) → List (Event C)
  perm : ∀ events, (order events).Perm events

end load

/-- `SyncPoliciesAndReportDelta`, which `LoadPolicies` calls for a load that is not empty, with the
`reconcile` after it. -/
def load (s : State P C) (data : LoadData P C) (arrangement : Arrangement C) : State P C :=
  if data.policies.isEmpty || data.checks.isEmpty then s
  else
    let policies := syncTxn policyColumns s.policies data.policies
    let checks := syncTxn checkColumns s.checks data.checks
    let marked := markOfModifiedPolicies data policies.2 checks.2 (markModified checks.2 checks.1)
    let events := policyEvents marked policies.2 checks.2 ++ checkEvents policies.1 policies.2 checks.2
    let reported := (arrangement.order events).foldl reportEvent (s.syncedIds, s.pushed)
    ⟨policies.1, marked, marked.keys, reported.2⟩

/-- A row with a reported result. The checksum is calculated again from the columns of the row. -/
def Check.withResult (checksummed : C → C) (row : Check C) (checkResult : CheckResult)
    (reason : String) : Check C :=
  { row with
    content := checksummed row.content
    result := checkResult
    reason := if reason ≠ "" ∧ checkResult = .notApplicable then some reason else row.reason }

def reportCheckResult (checksummed : C → C) (s : State P C) (policyId checkId : Id)
    (checkResult : CheckResult) (reason : String) : State P C :=
  match s.checks.lookup checkId with
  | none => s
  | some row =>
    let check := row.withResult checksummed checkResult reason
    if check = row then s
    else
      let event : Event C :=
        ⟨if (s.policies.lookup policyId).isSome then some policyId else none, checkId, check, .modified⟩
      let reported := reportEvent (s.syncedIds, s.pushed) event
      { s with checks := s.checks.insert checkId check, syncedIds := reported.1, pushed := reported.2 }

inductive Action (P C : Type) where
  | load (data : LoadData P C) (arrangement : Arrangement C)
  | result (policyId checkId : Id) (checkResult : CheckResult) (reason : String)

def step (checksummed : C → C) (s : State P C) : Action P C → State P C
  | .load data arrangement => load s data arrangement
  | .result policyId checkId checkResult reason =>
    reportCheckResult checksummed s policyId checkId checkResult reason

def run (checksummed : C → C) (actions : List (Action P C)) : State P C :=
  actions.foldl (step checksummed) .initial

end GuardSarm.Sca
