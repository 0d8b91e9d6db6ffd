import GuardSarm.Sca.EventHandler

/-!
# Checks that leave the agent

When no row of the agent has the policy and the id of a check any more, the
last operation pushed for its document should be a delete. It is one, unless a
load takes out a check whose stored result is "Not run" after a result of it
was pushed, or hands such a check to another policy, or a result is reported
under a policy that the row of the check does not have.
-/

namespace GuardSarm.Sca

open List Option

open RowSync

variable {P C : Type} [DecidableEq P] [DecidableEq C]

section messages

variable {pushed batch : List (String × Operation)} {id : String}

/-- The last operation pushed for a document. -/
def lastOperation (pushed : List (String × Operation)) (id : String) : Option Operation :=
  ((pushed.filter fun message => message.1 = id).getLast?).map (·.2)

/-- No create or modify was ever pushed for a document, or the last operation is a delete. -/
def Withdrawn (pushed : List (String × Operation)) (id : String) : Prop :=
  (∀ message ∈ pushed, message.1 = id → message.2 = .delete) ∨ lastOperation pushed id = some .delete

theorem lastOperation_append :
    lastOperation (pushed ++ batch) id = (lastOperation batch id).or (lastOperation pushed id) := by
  simp only [lastOperation, filter_append, getLast?_append]
  cases (batch.filter fun message => message.1 = id).getLast? <;> rfl

theorem lastOperation_eq_none_iff :
    lastOperation pushed id = none ↔ ∀ message ∈ pushed, message.1 ≠ id := by
  simp [lastOperation]

theorem mem_of_lastOperation {operation : Operation} (h : lastOperation pushed id = some operation) :
    (id, operation) ∈ pushed := by
  obtain ⟨⟨id', operation'⟩, last, rfl⟩ := map_eq_some_iff.mp h
  obtain ⟨mem, same⟩ := mem_filter.mp (mem_of_getLast? last)
  obtain rfl : id' = id := by simpa using same
  exact mem

theorem withdrawn_iff :
    Withdrawn pushed id ↔ ∀ operation, lastOperation pushed id = some operation → operation = .delete := by
  constructor
  · rintro (deletes | last) operation h
    · exact deletes _ (mem_of_lastOperation h) rfl
    · exact (Option.some.inj (last.symm.trans h)).symm
  · intro h
    cases last : lastOperation pushed id with
    | none =>
      exact .inl fun message mem same => absurd same (lastOperation_eq_none_iff.mp last message mem)
    | some operation => exact .inr (by rw [last, h operation last])

/-- The messages pushed later decide, if there are any for the document. -/
theorem withdrawn_append_iff : Withdrawn (pushed ++ batch) id ↔
    Withdrawn batch id ∧ (Withdrawn pushed id ∨ ∃ message ∈ batch, message.1 = id) := by
  simp only [withdrawn_iff, lastOperation_append]
  cases last : lastOperation batch id with
  | some operation =>
    have mine : ∃ message ∈ batch, message.1 = id := ⟨_, mem_of_lastOperation last, rfl⟩
    simp [mine]
  | none =>
    have others := lastOperation_eq_none_iff.mp last
    grind

end messages

section events

variable {events : List (Event C)} {syncedIds : List Id} {pushed : List (String × Operation)}

omit [DecidableEq C]

theorem reportEvent_messages (event : Event C) :
    ∃ own, (reportEvent (syncedIds, pushed) event).2 = pushed ++ own ∧
      (∀ message ∈ own, processStateful event = some message) ∧
      ∀ message, processStateful event = some message → event.checkId ∈ syncedIds →
        message ∈ own := by
  unfold reportEvent
  cases processed : processStateful event with
  | none => exact ⟨[], by simp, by simp, by simp⟩
  | some message =>
    cases should : (shouldPushStateful syncedIds event).1 with
    | true => exact ⟨[message], by simp [should], by simp, by simp⟩
    | false =>
      refine ⟨[], by simp [should], by simp, fun message _ synced => ?_⟩
      unfold shouldPushStateful at should
      cases returned : event.returned with
      | inserted => simp [returned] at should
      | modified => simp [returned] at should
      | deleted => simp [returned, synced] at should

theorem mem_syncedIds_of_ne {event : Event C} {id : Id} (mem : id ∈ syncedIds)
    (other : id ≠ event.checkId) : id ∈ (reportEvent (syncedIds, pushed) event).1 := by
  have kept : id ∈ (shouldPushStateful syncedIds event).2 := by
    unfold shouldPushStateful
    cases event.returned with
    | inserted => exact mem_cons_of_mem _ mem
    | modified => exact mem
    | deleted => exact mem_filter.mpr ⟨mem, by simpa using other⟩
  unfold reportEvent
  cases processStateful event with
  | none => exact kept
  | some message => exact kept

/-- The messages of a list of events. Each comes from an event, and an event that has a message pushes
it when the check was synchronised before. -/
theorem reported_messages (distinct : (events.map Event.checkId).Nodup) :
    ∃ batch, (events.foldl reportEvent (syncedIds, pushed)).2 = pushed ++ batch ∧
      (∀ message ∈ batch, ∃ event ∈ events, processStateful event = some message) ∧
      ∀ event ∈ events, ∀ message, processStateful event = some message →
        event.checkId ∈ syncedIds → message ∈ batch := by
  induction events generalizing syncedIds pushed with
  | nil => exact ⟨[], by simp, by simp, by simp⟩
  | cons event events ih =>
    obtain ⟨fresh, rest⟩ := nodup_cons.mp distinct
    obtain ⟨own, pushedOwn, fromEvent, complete⟩ := @reportEvent_messages C syncedIds pushed event
    obtain ⟨batch, pushedBatch, fromEvents, completeBatch⟩ :=
      @ih (reportEvent (syncedIds, pushed) event).1 (reportEvent (syncedIds, pushed) event).2 rest
    refine ⟨own ++ batch, ?_, fun message mem => ?_, fun other mem message processed synced => ?_⟩
    · rw [foldl_cons, pushedBatch, pushedOwn, append_assoc]
    · rcases mem_append.mp mem with mem | mem
      · exact ⟨event, mem_cons_self, fromEvent message mem⟩
      · obtain ⟨other, memOther, processed⟩ := fromEvents message mem
        exact ⟨other, mem_cons_of_mem _ memOther, processed⟩
    · rcases mem_cons.mp mem with rfl | mem
      · exact mem_append_left _ (complete message processed synced)
      · have apart : other.checkId ≠ event.checkId :=
          fun same => fresh (mem_map.mpr ⟨other, mem, same⟩)
        exact mem_append_right _
          (completeBatch other mem message processed (mem_syncedIds_of_ne synced apart))

end events

section marked

omit [DecidableEq P] [DecidableEq C]

variable {checks : Rows Id (Check C)}

/-- The policy of the row of a check. -/
def policyOf (checks : Rows Id (Check C)) (id : Id) : Option Id := (checks.lookup id).map Check.policyId

theorem policyOf_insert {id : Id} {row : Check C} (same : policyOf checks id = some row.policyId) :
    policyOf (checks.insert id row) = policyOf checks := by
  funext other
  by_cases here : other = id
  · subst here
    rw [same]
    simp [policyOf]
  · simp [policyOf, AList.lookup_insert_ne here]

theorem policyOf_updateCheckResult {id policyId : Id} {content : C}
    (same : policyOf checks id = some policyId) :
    policyOf (updateCheckResult checks id policyId content) = policyOf checks := by
  unfold updateCheckResult
  split
  · exact policyOf_insert same
  · exact policyOf_insert same

/-- Steps that keep the policies of the rows, taken over a list. -/
theorem policyOf_foldl {α : Type} {f : Rows Id (Check C) → α → Rows Id (Check C)} {l : List α}
    (keeps : ∀ {t}, policyOf t = policyOf checks → ∀ a ∈ l, policyOf (f t a) = policyOf t) :
    policyOf (l.foldl f checks) = policyOf checks := by
  suffices ∀ t, policyOf t = policyOf checks → policyOf (l.foldl f t) = policyOf checks from
    this checks rfl
  intro t same
  induction l generalizing t with
  | nil => exact same
  | cons a l ih =>
    exact ih (fun same b mem => keeps same b (mem_cons_of_mem _ mem)) _
      ((keeps same a mem_cons_self).trans same)

theorem policyOf_markModified {modifiedChecks : Rows Id (Delta (Check C))}
    (reported : ∀ {id delta}, modifiedChecks.lookup id = some delta → delta.returned = .modified →
      policyOf checks id = some delta.row.policyId) :
    policyOf (markModified modifiedChecks checks) = policyOf checks := by
  refine policyOf_foldl fun {t} same entry mem => ?_
  split
  · rename_i modified
    refine policyOf_updateCheckResult ?_
    rw [same]
    exact reported (AList.mem_lookup_iff.mpr mem) modified
  · rfl

theorem policyOf_markOfModifiedPolicies {data : LoadData P C} {modifiedPolicies : Rows Id (Delta P)}
    {modifiedChecks : Rows Id (Delta (Check C))}
    (unreported : ∀ d ∈ data.checks, modifiedChecks.lookup d.id = none →
      policyOf checks d.id = some d.policyId) :
    policyOf (markOfModifiedPolicies data modifiedPolicies modifiedChecks checks) = policyOf checks := by
  refine policyOf_foldl fun {t} same policyEntry _ => ?_
  split
  · refine policyOf_foldl fun {t'} same' d mem => ?_
    split
    · rename_i mine
      simp only [Bool.and_eq_true, decide_eq_true_eq, isNone_iff_eq_none] at mine
      refine policyOf_updateCheckResult ?_
      rw [same', same]
      exact unreported d mem mine.2
    · rfl
  · rfl

end marked

section load

variable {s : State P C} {data : LoadData P C}

/-- The policy under which a load has a check, the last one if there are more. -/
def LoadData.policyFor (data : LoadData P C) (id : Id) : Option Id :=
  ((data.checks.filter fun d => d.id = id).getLast?).map CheckData.policyId

abbrev syncedPolicies (s : State P C) (data : LoadData P C) : Rows Id P × Rows Id (Delta P) :=
  syncTxn policyColumns s.policies data.policies

abbrev syncedChecks (s : State P C) (data : LoadData P C) :
    Rows Id (Check C) × Rows Id (Delta (Check C)) :=
  syncTxn checkColumns s.checks data.checks

def markedChecks (s : State P C) (data : LoadData P C) : Rows Id (Check C) :=
  markOfModifiedPolicies data (syncedPolicies s data).2 (syncedChecks s data).2
    (markModified (syncedChecks s data).2 (syncedChecks s data).1)

def loadEvents (s : State P C) (data : LoadData P C) : List (Event C) :=
  policyEvents (markedChecks s data) (syncedPolicies s data).2 (syncedChecks s data).2 ++
    checkEvents (syncedPolicies s data).1 (syncedPolicies s data).2 (syncedChecks s data).2

def LoadData.isEmpty (data : LoadData P C) : Bool := data.policies.isEmpty || data.checks.isEmpty

theorem load_empty (empty : data.isEmpty = true) (arrangement : Arrangement C) :
    load s data arrangement = s := by
  exact if_pos empty

theorem load_eq (nonempty : data.isEmpty = false) (arrangement : Arrangement C) :
    load s data arrangement = ⟨(syncedPolicies s data).1, markedChecks s data,
      (markedChecks s data).keys,
      ((arrangement.order (loadEvents s data)).foldl reportEvent (s.syncedIds, s.pushed)).2⟩ := by
  exact if_neg (by rw [← LoadData.isEmpty, nonempty]; nofun)

omit [DecidableEq P] in
/-- A check that was reported as put in or modified has the row that was reported. -/
theorem policyOf_reported {id : Id} {delta : Delta (Check C)}
    (reported : (syncedChecks s data).2.lookup id = some delta) (present : delta.returned ≠ .deleted) :
    policyOf (syncedChecks s data).1 id = some delta.row.policyId := by
  by_cases absent : given checkColumns data.checks id = []
  · rw [(syncTxn_absent s.checks absent).2] at reported
    obtain ⟨row, _, rfl⟩ := map_eq_some_iff.mp reported
    exact absurd rfl present
  · obtain ⟨row, report⟩ := syncTxn_given s.checks absent
    rw [policyOf, row, (syncOne_reported (report.symm.trans reported)).1]
    rfl

omit [DecidableEq P] in
/-- A check of the load that was not reported has the policy that the load has it under. -/
theorem policyOf_unreported {d : CheckData C} (mem : d ∈ data.checks)
    (unreported : (syncedChecks s data).2.lookup d.id = none) :
    policyOf (syncedChecks s data).1 d.id = some d.policyId := by
  have mine : d ∈ given checkColumns data.checks d.id := mem_filter.mpr ⟨mem, by simp [checkColumns]⟩
  have present := ne_nil_of_mem mine
  obtain ⟨row, report⟩ := syncTxn_given s.checks present
  obtain ⟨old, _, found, agrees⟩ := syncOne_unreported present (report.symm.trans unreported)
  have same := agrees d mine
  simp only [checkColumns, Bool.and_eq_true, decide_eq_true_eq] at same
  rw [policyOf, row, found, ← same.1]
  rfl

omit [DecidableEq P] in
theorem policyOf_synced (id : Id) : policyOf (syncedChecks s data).1 id = data.policyFor id := by
  have filtered : given checkColumns data.checks id = data.checks.filter fun d => d.id = id := rfl
  rw [LoadData.policyFor, ← filtered]
  by_cases absent : given checkColumns data.checks id = []
  · rw [policyOf, (syncTxn_absent s.checks absent).1, absent]
    rfl
  · obtain ⟨d, last⟩ := ne_none_iff_exists'.mp (mt getLast?_eq_none_iff.mp absent)
    obtain ⟨row, found, agrees⟩ :=
      @syncOne_last Id (Check C) (CheckData C) checkColumns (s.checks.lookup id) _ d last none
    simp only [checkColumns, Bool.and_eq_true, decide_eq_true_eq] at agrees
    rw [policyOf, (syncTxn_given s.checks absent).1, found, last, map_some, map_some,
      agrees.1]

/-- After a load every check is under the policy that the load has it under. -/
theorem policyOf_marked : policyOf (markedChecks s data) = data.policyFor := by
  have modified : policyOf (markModified (syncedChecks s data).2 (syncedChecks s data).1) =
      policyOf (syncedChecks s data).1 :=
    policyOf_markModified fun reported modified => policyOf_reported reported (by rw [modified]; nofun)
  rw [markedChecks, policyOf_markOfModifiedPolicies, modified]
  · exact funext policyOf_synced
  · intro d mem unreported
    rw [modified]
    exact policyOf_unreported mem unreported

omit [DecidableEq P] in
theorem given_eq_nil_iff {id : Id} :
    given checkColumns data.checks id = [] ↔ data.policyFor id = none := by
  have filtered : given checkColumns data.checks id = data.checks.filter fun d => d.id = id := rfl
  rw [LoadData.policyFor, ← filtered, map_eq_none_iff, getLast?_eq_none_iff]

/-- Where the message of an event of a load comes from: a row that is there under its policy, or one
that was deleted. -/
theorem event_message {event : Event C} (mem : event ∈ loadEvents s data)
    {message : String × Operation} (processed : processStateful event = some message) :
    ∃ policyId, message.1 = calculateHashId policyId event.checkId ∧
      (policyOf (markedChecks s data) event.checkId = some policyId ∨
        message.2 = .delete ∧ data.policyFor event.checkId = none ∧ ∃ row,
          s.checks.lookup event.checkId = some row ∧ row.policyId = policyId ∧ row.result ≠ .notRun) := by
  unfold processStateful at processed
  split at processed
  · cases processed
  · rename_i ran
    obtain ⟨policyId, policy, rfl⟩ := map_eq_some_iff.mp processed
    refine ⟨policyId, rfl, ?_⟩
    rcases mem_append.mp mem with mem | mem
    · obtain ⟨policyEntry, _, ofPolicy⟩ := mem_flatMap.mp mem
      obtain ⟨check, unchanged, rfl⟩ := mem_map.mp ofPolicy
      obtain ⟨there, own⟩ := mem_filter.mp (mem_filter.mp unchanged).1
      cases policy
      have found : (markedChecks s data).lookup check.1 = some check.2 := AList.mem_lookup_iff.mpr there
      exact .inl (by rw [policyOf, found, map_some, of_decide_eq_true own])
    · obtain ⟨⟨id, delta⟩, entry, rfl⟩ := mem_map.mp mem
      have reported : (syncedChecks s data).2.lookup id = some delta := AList.mem_lookup_iff.mpr entry
      obtain ⟨returned, row⟩ := delta
      cases returned with
      | inserted => exact absurd rfl ran
      | modified => exact absurd rfl ran
      | deleted =>
        have absent : given checkColumns data.checks id = [] := by
          by_contra present
          have report := (syncTxn_given s.checks present).2
          exact (syncOne_reported (report.symm.trans reported)).2 rfl
        rw [(syncTxn_absent s.checks absent).2] at reported
        obtain ⟨old, found, same⟩ := map_eq_some_iff.mp reported
        cases same
        refine .inr ⟨rfl, given_eq_nil_iff.mp absent, row, found, ?_, ran⟩
        dsimp only at policy
        split at policy
        · exact Option.some.inj policy
        · cases policy

/-- A check that a load takes out has an event for it. -/
theorem event_of_deleted {id : Id} {row : Check C} (found : s.checks.lookup id = some row)
    (absent : data.policyFor id = none) (known : (s.policies.lookup row.policyId).isSome) :
    ⟨some row.policyId, id, row, .deleted⟩ ∈ loadEvents s data := by
  have reported := (syncTxn_absent s.checks (given_eq_nil_iff.mpr absent)).2
  rw [found] at reported
  have still : ((syncedPolicies s data).2.lookup row.policyId).isSome ||
      ((syncedPolicies s data).1.lookup row.policyId).isSome := by
    by_cases gone : given policyColumns data.policies row.policyId = []
    · rw [(syncTxn_absent s.policies gone).2]
      simp [known]
    · rw [syncTxn_present s.policies gone, Bool.or_true]
  refine mem_append_right _ (mem_map.mpr ⟨⟨id, ⟨.deleted, row⟩⟩, ?_, ?_⟩)
  · exact AList.mem_lookup_iff.mp reported
  · simp only [still, if_true]

/-- The ids of the checks that have an event because of their policy. -/
def unchangedOf (s : State P C) (data : LoadData P C) (policyId : Id) : List Id :=
  (((markedChecks s data).entries.filter fun check => check.2.policyId = policyId).filter
    fun check => ((syncedChecks s data).2.lookup check.1).isNone).map Sigma.fst

theorem mem_unchangedOf {id policyId : Id} (mem : id ∈ unchangedOf s data policyId) :
    policyOf (markedChecks s data) id = some policyId ∧ (syncedChecks s data).2.lookup id = none := by
  obtain ⟨check, kept, rfl⟩ := mem_map.mp mem
  obtain ⟨ofPolicy, unreported⟩ := mem_filter.mp kept
  obtain ⟨there, own⟩ := mem_filter.mp ofPolicy
  have found : (markedChecks s data).lookup check.1 = some check.2 := AList.mem_lookup_iff.mpr there
  refine ⟨?_, isNone_iff_eq_none.mp unreported⟩
  rw [policyOf, found, map_some, of_decide_eq_true own]

theorem loadEvents_distinct : ((loadEvents s data).map Event.checkId).Nodup := by
  have ids : (loadEvents s data).map Event.checkId =
      ((syncedPolicies s data).2.entries.flatMap fun policyEntry => unchangedOf s data policyEntry.1) ++
        (syncedChecks s data).2.keys := by
    simp [loadEvents, policyEvents, checkEvents, unchangedOf, map_flatMap, AList.keys,
      List.keys, Function.comp_def]
  rw [ids, nodup_append]
  refine ⟨nodup_flatMap.mpr ⟨fun policyEntry _ => ?_, ?_⟩, AList.keys_nodup _, ?_⟩
  · exact (markedChecks s data).keys_nodup.sublist
      ((filter_sublist.trans filter_sublist).map Sigma.fst)
  · refine (pairwise_map.mp (syncedPolicies s data).2.keys_nodup).imp ?_
    intro one two apart id inOne inTwo
    exact apart (Option.some.inj ((mem_unchangedOf inOne).1.symm.trans (mem_unchangedOf inTwo).1))
  · rintro id mem _ reported rfl
    obtain ⟨policyEntry, _, unchanged⟩ := mem_flatMap.mp mem
    exact AList.lookup_eq_none.mp (mem_unchangedOf unchanged).2 (AList.mem_keys.mpr reported)

end load

section steps

variable {checksummed : C → C} {s : State P C} {keys : Set (Id × Id)}

/-- What every state has: the policy of a row is known, the row counts as synchronised, and its policy
and id are among those of the run. -/
structure Tracked (keys : Set (Id × Id)) (s : State P C) : Prop where
  known : ∀ {id row}, s.checks.lookup id = some row → (s.policies.lookup row.policyId).isSome
  synced : ∀ {id row}, s.checks.lookup id = some row → id ∈ s.syncedIds
  keyed : ∀ {id policyId}, policyOf s.checks id = some policyId → (policyId, id) ∈ keys

/-- A check that has no row under a policy has no document under it. -/
def Settled (keys : Set (Id × Id)) (s : State P C) : Prop :=
  ∀ policyId id, (policyId, id) ∈ keys → policyOf s.checks id ≠ some policyId →
    Withdrawn s.pushed (calculateHashId policyId id)

/-- A check with a document stays under its policy or is taken out with a result of its own. -/
def LoadMeets (s : State P C) (data : LoadData P C) : Prop :=
  data.isEmpty = false → ∀ id row, s.checks.lookup id = some row →
    ¬Withdrawn s.pushed (calculateHashId row.policyId id) →
    data.policyFor id = some row.policyId ∨ data.policyFor id = none ∧ row.result ≠ .notRun

/-- A result that changes the row of a check is reported under the policy of the row. -/
def ResultMeets (checksummed : C → C) (s : State P C) (policyId checkId : Id)
    (checkResult : CheckResult) (reason : String) : Prop :=
  ∀ row, s.checks.lookup checkId = some row → row.withResult checksummed checkResult reason ≠ row →
    checkResult ≠ .notRun → (s.policies.lookup policyId).isSome → row.policyId = policyId

def Meets (checksummed : C → C) (s : State P C) : Action P C → Prop
  | .load data _ => LoadMeets s data
  | .result policyId checkId checkResult reason =>
    ResultMeets checksummed s policyId checkId checkResult reason

/-- The checks that an action names are among those of the run. -/
def Action.Within (keys : Set (Id × Id)) : Action P C → Prop
  | .load data _ => ∀ check ∈ data.checks, (check.policyId, check.id) ∈ keys
  | .result policyId checkId _ _ => (policyId, checkId) ∈ keys

omit [DecidableEq P] [DecidableEq C] in
theorem policyFor_keyed {data : LoadData P C}
    (within : ∀ check ∈ data.checks, (check.policyId, check.id) ∈ keys) {id policyId : Id}
    (found : data.policyFor id = some policyId) : (policyId, id) ∈ keys := by
  obtain ⟨d, last, rfl⟩ := map_eq_some_iff.mp found
  obtain ⟨mem, same⟩ := mem_filter.mp (mem_of_getLast? last)
  obtain rfl : d.id = id := by simpa using same
  exact within d mem

theorem load_tracked {data : LoadData P C}
    (within : ∀ check ∈ data.checks, (check.policyId, check.id) ∈ keys) (arrangement : Arrangement C)
    (tracked : Tracked keys s) : Tracked keys (load s data arrangement) := by
  cases empty : data.isEmpty with
  | true =>
    rw [load_empty empty]
    exact tracked
  | false =>
    rw [load_eq empty]
    refine ⟨fun {id row} found => ?_, fun {id row} found => ?_, fun {id policyId} found => ?_⟩
    · have listed : data.policyFor id = some row.policyId := by
        rw [← policyOf_marked (s := s), policyOf, found]
        rfl
      obtain ⟨d, last, same⟩ := map_eq_some_iff.mp listed
      obtain ⟨policy, mem, own⟩ := data.known d (mem_filter.mp (mem_of_getLast? last)).1
      have listed : policy ∈ given policyColumns data.policies row.policyId :=
        mem_filter.mpr ⟨mem, by simp [policyColumns, own, same]⟩
      exact syncTxn_present s.policies (ne_nil_of_mem listed)
    · exact AList.mem_keys.mp (AList.lookup_isSome.mp (by rw [found]; rfl))
    · rw [policyOf_marked] at found
      exact policyFor_keyed within found

/-- The messages that a load pushes. One for a check of the run stands for a row that is there, or for
one that was deleted; and every check that is taken out with a result of its own has its delete. -/
theorem load_messages (distinct : Set.InjOn (fun key => calculateHashId key.1 key.2) keys)
    (tracked : Tracked keys s) {data : LoadData P C}
    (within : ∀ check ∈ data.checks, (check.policyId, check.id) ∈ keys) (arrangement : Arrangement C) :
    ∃ batch, ((arrangement.order (loadEvents s data)).foldl reportEvent (s.syncedIds, s.pushed)).2 =
        s.pushed ++ batch ∧ (∀ {policyId id}, (policyId, id) ∈ keys → ∀ message ∈ batch,
        message.1 = calculateHashId policyId id → data.policyFor id = some policyId ∨
          message.2 = .delete ∧ data.policyFor id = none ∧ ∃ row, s.checks.lookup id = some row ∧
            row.policyId = policyId ∧ row.result ≠ .notRun) ∧
      ∀ {id row}, s.checks.lookup id = some row → data.policyFor id = none → row.result ≠ .notRun →
        (calculateHashId row.policyId id, Operation.delete) ∈ batch := by
  have perm := arrangement.perm (loadEvents s data)
  obtain ⟨batch, pushed, fromEvents, complete⟩ := @reported_messages C _ s.syncedIds s.pushed
    ((perm.map Event.checkId).nodup_iff.mpr loadEvents_distinct)
  refine ⟨batch, pushed, fun {policyId id} mine message mem same => ?_, fun {id row} found gone ran => ?_⟩
  · obtain ⟨event, memEvent, processed⟩ := fromEvents message mem
    obtain ⟨policyId', hash, source⟩ := event_message (perm.mem_iff.mp memEvent) processed
    rw [policyOf_marked] at source
    have theirs : (policyId', event.checkId) ∈ keys := by
      rcases source with there | ⟨_, _, row, found, rfl, _⟩
      · exact policyFor_keyed within there
      · exact tracked.keyed (by rw [policyOf, found]; rfl)
    obtain ⟨rfl, rfl⟩ := Prod.mk_inj.mp (distinct mine theirs (same.symm.trans hash))
    exact source
  · have event := event_of_deleted found gone (tracked.known found)
    exact complete _ (perm.mem_iff.mpr event) _ (if_neg ran) (tracked.synced found)

/-- **A load.** It leaves no document behind exactly when it meets the condition. -/
theorem load_settled_iff (distinct : Set.InjOn (fun key => calculateHashId key.1 key.2) keys)
    (tracked : Tracked keys s) (settled : Settled keys s) {data : LoadData P C}
    (within : ∀ check ∈ data.checks, (check.policyId, check.id) ∈ keys) (arrangement : Arrangement C) :
    Settled keys (load s data arrangement) ↔ LoadMeets s data := by
  cases empty : data.isEmpty with
  | true =>
    rw [load_empty empty]
    refine ⟨fun _ nonempty => ?_, fun _ => settled⟩
    rw [empty] at nonempty
    cases nonempty
  | false =>
    obtain ⟨batch, pushed, source, complete⟩ := load_messages distinct tracked within arrangement
    rw [load_eq empty, pushed]
    unfold Settled
    rw [policyOf_marked]
    constructor
    · intro after _ id row found document
      have mine : (row.policyId, id) ∈ keys := tracked.keyed (by rw [policyOf, found]; rfl)
      by_cases stays : data.policyFor id = some row.policyId
      · exact .inl stays
      · by_contra wrong
        obtain ⟨message, mem, same⟩ :=
          (withdrawn_append_iff.mp (after _ _ mine stays)).2.resolve_left document
        rcases source mine message mem same with there | ⟨_, absent, row', found', _, ran⟩
        · exact stays there
        · cases found.symm.trans found'
          exact wrong (.inr ⟨absent, ran⟩)
    · intro meets policyId id mine absent
      refine withdrawn_append_iff.mpr ⟨.inl fun message mem same => ?_, ?_⟩
      · rcases source mine message mem same with there | ⟨deleted, _⟩
        · exact absurd there absent
        · exact deleted
      · by_cases before : Withdrawn s.pushed (calculateHashId policyId id)
        · exact .inl before
        · have there : policyOf s.checks id = some policyId :=
            not_not.mp fun gone => before (settled policyId id mine gone)
          obtain ⟨row, found, rfl⟩ := map_eq_some_iff.mp there
          rcases meets empty id row found before with stays | ⟨gone, ran⟩
          · exact absurd stays absent
          · exact .inr ⟨_, complete found gone ran, rfl⟩

section result

variable {policyId checkId : Id} {checkResult : CheckResult} {reason : String} {row : Check C}

omit [DecidableEq C] in
@[simp]
theorem withResult_result : (row.withResult checksummed checkResult reason).result = checkResult := rfl

omit [DecidableEq C] in
@[simp]
theorem withResult_policyId :
    (row.withResult checksummed checkResult reason).policyId = row.policyId := rfl

omit [DecidableEq P] in
theorem reportCheckResult_unchanged
    (same : ∀ row, s.checks.lookup checkId = some row → row.withResult checksummed checkResult reason = row) :
    reportCheckResult checksummed s policyId checkId checkResult reason = s := by
  unfold reportCheckResult
  split
  · rfl
  · rename_i row found
    exact if_pos (same row found)

omit [DecidableEq P] in
theorem reportCheckResult_changed (found : s.checks.lookup checkId = some row)
    (changed : row.withResult checksummed checkResult reason ≠ row) :
    reportCheckResult checksummed s policyId checkId checkResult reason =
      { s with
        checks := s.checks.insert checkId (row.withResult checksummed checkResult reason)
        pushed := s.pushed ++ if checkResult ≠ .notRun ∧ (s.policies.lookup policyId).isSome then
          [(calculateHashId policyId checkId, .modify)] else [] } := by
  unfold reportCheckResult
  simp only [found, if_neg changed, reportEvent, processStateful, withResult_result,
    shouldPushStateful]
  by_cases ran : checkResult = .notRun
  · simp [ran]
  · cases (s.policies.lookup policyId).isSome with
    | false => simp [ran]
    | true => simp [ran, operationOf]

omit [DecidableEq P] [DecidableEq C] in
theorem policyOf_withResult (found : s.checks.lookup checkId = some row) :
    policyOf s.checks checkId = some (row.withResult checksummed checkResult reason).policyId := by
  rw [policyOf, found]
  rfl

omit [DecidableEq P] [DecidableEq C] in
theorem Tracked.insert (tracked : Tracked keys s) (same : policyOf s.checks checkId = some row.policyId)
    (pushed : List (String × Operation)) :
    Tracked keys { s with checks := s.checks.insert checkId row, pushed := pushed } := by
  have kept := policyOf_insert same
  have old {id : Id} {row' : Check C} (there : (s.checks.insert checkId row).lookup id = some row') :
      ∃ old, s.checks.lookup id = some old ∧ old.policyId = row'.policyId :=
    map_eq_some_iff.mp (by rw [← policyOf, ← kept, policyOf, there]; rfl)
  refine ⟨fun there => ?_, fun there => ?_, fun there => tracked.keyed (kept ▸ there)⟩
  · obtain ⟨_, before, same⟩ := old there
    exact same ▸ tracked.known before
  · obtain ⟨_, before, _⟩ := old there
    exact tracked.synced before

omit [DecidableEq P] in
theorem result_tracked (tracked : Tracked keys s) :
    Tracked keys (reportCheckResult checksummed s policyId checkId checkResult reason) := by
  by_cases unchanged : ∀ row, s.checks.lookup checkId = some row →
      row.withResult checksummed checkResult reason = row
  · rw [reportCheckResult_unchanged unchanged]
    exact tracked
  · push Not at unchanged
    obtain ⟨row, found, changed⟩ := unchanged
    rw [reportCheckResult_changed found changed]
    exact tracked.insert (policyOf_withResult found) _

omit [DecidableEq P] in
/-- **A result.** It leaves no document behind exactly when it meets the condition. -/
theorem result_settled_iff (distinct : Set.InjOn (fun key => calculateHashId key.1 key.2) keys)
    (settled : Settled keys s) (within : (policyId, checkId) ∈ keys) :
    Settled keys (reportCheckResult checksummed s policyId checkId checkResult reason) ↔
      ResultMeets checksummed s policyId checkId checkResult reason := by
  by_cases unchanged : ∀ row, s.checks.lookup checkId = some row →
      row.withResult checksummed checkResult reason = row
  · rw [reportCheckResult_unchanged unchanged]
    exact ⟨fun _ row found changed => absurd (unchanged row found) changed, fun _ => settled⟩
  · push Not at unchanged
    obtain ⟨row, found, changed⟩ := unchanged
    rw [reportCheckResult_changed found changed]
    unfold Settled
    rw [policyOf_insert (policyOf_withResult found)]
    have own : policyOf s.checks checkId = some row.policyId := by rw [policyOf, found]; rfl
    constructor
    · intro after row' found' _ ran known
      cases found.symm.trans found'
      by_contra other
      have last := (withdrawn_append_iff.mp (after policyId checkId within
        (by rw [own]; exact fun same => other (Option.some.inj same)))).1
      rw [if_pos ⟨ran, known⟩] at last
      simp [Withdrawn, lastOperation] at last
    · intro meets policyId' id mine absent
      have before := settled policyId' id mine absent
      split
      · rename_i pushes
        have same := meets row found changed pushes.1 pushes.2
        refine withdrawn_append_iff.mpr ⟨.inl fun message mem hash => ?_, .inl before⟩
        rw [mem_singleton.mp mem] at hash
        obtain ⟨rfl, rfl⟩ := Prod.mk_inj.mp (distinct within mine hash)
        exact absurd (own.trans (congrArg some same)) absent
      · rw [append_nil]
        exact before

end result

theorem step_tracked {action : Action P C} (within : action.Within keys) (tracked : Tracked keys s) :
    Tracked keys (step checksummed s action) := by
  cases action with
  | load data arrangement => exact load_tracked within arrangement tracked
  | result policyId checkId checkResult reason => exact result_tracked tracked

theorem step_settled_iff (distinct : Set.InjOn (fun key => calculateHashId key.1 key.2) keys)
    {action : Action P C} (within : action.Within keys) (tracked : Tracked keys s)
    (settled : Settled keys s) : Settled keys (step checksummed s action) ↔ Meets checksummed s action := by
  cases action with
  | load data arrangement => exact load_settled_iff distinct tracked settled within arrangement
  | result policyId checkId checkResult reason => exact result_settled_iff distinct settled within

omit [DecidableEq P] [DecidableEq C] in
theorem initial_tracked : Tracked keys (State.initial : State P C) := ⟨nofun, nofun, nofun⟩

omit [DecidableEq P] [DecidableEq C] in
theorem initial_settled : Settled keys (State.initial : State P C) :=
  fun _ _ _ _ => .inl fun _ mem => (List.not_mem_nil mem).elim

theorem run_tracked {actions : List (Action P C)} (within : ∀ action ∈ actions, action.Within keys) :
    Tracked keys (run checksummed actions) := by
  induction actions using List.reverseRecOn with
  | nil => exact initial_tracked
  | append_singleton actions action ih =>
    rw [run, foldl_append]
    exact step_tracked (within action (by simp))
      (ih fun other mem => within other (mem_append_left _ mem))

end steps

section examples

/-- A policy with one check. -/
def onlyCheck (id : Id) (named : id ≠ "") : LoadData Unit Unit where
  policies := [⟨"cis", ()⟩]
  checks := [⟨id, "cis", (), ()⟩]
  known := by simp
  named := by simpa using named

def asListed : Arrangement Unit := ⟨id, fun _ => .refl _⟩

/-- A check passes, does not complete in the next scan, and leaves the policy. -/
def timedOut : List (Action Unit Unit) :=
  [.load (onlyCheck "1" (by decide)) asListed, .result "cis" "1" .passed "",
    .result "cis" "1" .notRun "", .load (onlyCheck "2" (by decide)) asListed]

/-- A check passes and leaves the policy. -/
def passedOnce : List (Action Unit Unit) :=
  [.load (onlyCheck "1" (by decide)) asListed, .result "cis" "1" .passed "",
    .load (onlyCheck "2" (by decide)) asListed]

def bothChecks : Set (Id × Id) := {("cis", "1"), ("cis", "2")}

end examples

end GuardSarm.Sca
