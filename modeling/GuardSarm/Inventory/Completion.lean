import GuardSarm.Inventory.AgentSession

/-! When a session is queued for indexing. Whatever order its calls come in, the
session is queued by the first call after which an End and every sequence
number have arrived, and by no other. -/
namespace GuardSarm.Inventory

open List

/-- A call of one of the handlers of a session. -/
inductive Call
  | handleData (data : Option DataValue) (dataRaw : Payload)
  | handleDataContext (data : Option DataContext) (dataRaw : Payload)
  | handleDataClean (data : Option DataClean)
  | handleChecksumModule (data : Option ChecksumModule)
  | handleEnd
  deriving DecidableEq

def Call.perform : Call → Handler
  | .handleData data dataRaw => AgentSession.handleData data dataRaw
  | .handleDataContext data dataRaw => AgentSession.handleDataContext data dataRaw
  | .handleDataClean data => AgentSession.handleDataClean data
  | .handleChecksumModule data => AgentSession.handleChecksumModule data
  | .handleEnd => AgentSession.handleEnd

/-- The state a call leaves, whether it returns or raises. -/
def SessionState.after (s : SessionState) (call : Call) : SessionState :=
  match call.perform.run s with
  | .ok _ s' => s'
  | .error _ s' => s'

def Call.Raises (call : Call) (s : SessionState) : Prop :=
  ∃ e s', call.perform.run s = .error e s'

def Call.seq : Call → Option Nat
  | .handleData (some data) _ => some data.seq
  | .handleDataContext (some data) _ => some data.seq
  | .handleDataClean (some data) => some data.seq
  | _ => none

/-- The sequence numbers below the declared size that the calls delivered. -/
def observedBy (size : Nat) (calls : List Call) : Finset Nat :=
  ((calls.filterMap Call.seq).filter (· < size)).toFinset

/-- An End and every sequence number have arrived. -/
def Complete (size : Nat) (calls : List Call) : Prop :=
  .handleEnd ∈ calls ∧ ∀ n < size, n ∈ observedBy size calls

instance (size : Nat) (calls : List Call) : Decidable (Complete size calls) :=
  inferInstanceAs (Decidable (_ ∧ _))

theorem mem_observedBy (size : Nat) (calls : List Call) (n : Nat) :
    n ∈ observedBy size calls ↔ n < size ∧ ∃ call ∈ calls, call.seq = some n := by
  simp [observedBy, and_comm]

variable {call : Call}

theorem observedBy_snoc_of_seq {size n : Nat} (calls : List Call)
    (seq : call.seq = some n) (bound : n < size) :
    observedBy size (calls ++ [call]) = insert n (observedBy size calls) := by
  ext m
  simp only [mem_observedBy, Finset.mem_insert, mem_append, mem_singleton]
  grind

theorem observedBy_snoc_of_out {size : Nat} (calls : List Call)
    (out : ∀ n, call.seq = some n → size ≤ n) :
    observedBy size (calls ++ [call]) = observedBy size calls := by
  ext m
  simp only [mem_observedBy, mem_append, mem_singleton]
  grind

/-- The state right after the constructor has built the session. -/
def SessionState.opened (sessionId : Nat) (start : Start) (store : DataStore)
    (indexerQueue : List Response) (responses : List Answer) : SessionState :=
  { session := .ofStart sessionId start, store, indexerQueue, responses }

def SessionState.afterAll (s : SessionState) (calls : List Call) : SessionState :=
  calls.foldl .after s

@[simp] theorem afterAll_nil (s : SessionState) : s.afterAll [] = s := rfl

@[simp] theorem afterAll_snoc (s : SessionState) (calls : List Call) (call : Call) :
    s.afterAll (calls ++ [call]) = (s.afterAll calls).after call := by
  simp [SessionState.afterAll]

/-- The state after `push`. -/
def SessionState.pushed (s : SessionState) : SessionState :=
  { s with
    indexerQueue := s.indexerQueue ++ [⟨.ok, s.session.context.sessionId⟩]
    session := { s.session with endEnqueued := true } }

/-- The state after `pushIfComplete`. -/
def SessionState.pushedIfComplete (s : SessionState) : SessionState :=
  if s.session.endReceived && !s.session.endEnqueued && s.session.gapSet.empty then s.pushed
  else s

theorem push_run (s : SessionState) : AgentSession.push.run s = .ok () s.pushed := rfl

theorem pushIfComplete_run (s : SessionState) :
    AgentSession.pushIfComplete.run s = .ok () s.pushedIfComplete := by
  simp only [AgentSession.pushIfComplete, SessionState.pushedIfComplete, EStateM.run_bind,
    EStateM.run_get]
  by_cases ready : (s.session.endReceived && !s.session.endEnqueued) = true
  · by_cases all : s.session.gapSet.empty = true
    · simp [ready, all, push_run]
    · simp [ready, all]
  · simp [ready]

variable {s : SessionState} {g : GapSet}

theorem observe_run {seq : Nat}
    (observed : s.session.gapSet.observe seq = .ok g) :
    (AgentSession.observe seq).run s =
      .ok () { s with session := { s.session with gapSet := g } } := by
  simp [AgentSession.observe, observed]

theorem observe_run_error {seq : Nat} {e : SessionError}
    (raised : s.session.gapSet.observe seq = .error e) :
    (AgentSession.observe seq).run s = .error e s := by
  simp [AgentSession.observe, raised]

/-- The number is below the declared size and the gap set took it. -/
theorem handleData_run {d : DataValue} {raw : Payload}
    (bound : d.seq < s.session.declaredSize) (observed : s.session.gapSet.observe d.seq = .ok g) :
    (AgentSession.handleData (some d) raw).run s = .ok () (SessionState.pushedIfComplete
      { s with
        store := s.store.put (dataKey d.session d.seq) raw
        session := { s.session with gapSet := g } }) := by
  simp [AgentSession.handleData, Nat.not_le.mpr bound, observe_run, observed, pushIfComplete_run]

theorem handleDataContext_run {d : DataContext} {raw : Payload}
    (bound : d.seq < s.session.declaredSize) (observed : s.session.gapSet.observe d.seq = .ok g) :
    (AgentSession.handleDataContext (some d) raw).run s = .ok () (SessionState.pushedIfComplete
      { s with
        store := s.store.put (contextKey d.session d.seq) raw
        session := { s.session with gapSet := g } }) := by
  simp [AgentSession.handleDataContext, Nat.not_le.mpr bound, observe_run, observed,
    pushIfComplete_run]

/-- The indices to clean after a DataClean that names the given one. -/
def cleaning (index : Option String) (indices : Finset String) : Finset String :=
  match index with
  | some index => if isInventoryStateIndex index then insert index indices else indices
  | none => indices

theorem handleDataClean_run {d : DataClean}
    (observed : s.session.gapSet.observe d.seq = .ok g) :
    (AgentSession.handleDataClean (some d)).run s = .ok () (SessionState.pushedIfComplete
      { s with
        session := { s.session with
          gapSet := g
          context := { s.session.context with
            dataCleanIndices := cleaning d.index s.session.context.dataCleanIndices } } }) := by
  cases named : d.index with
  | none =>
    simp [AgentSession.handleDataClean, observe_run observed, named, pushIfComplete_run, cleaning]
  | some index =>
    by_cases valid : isInventoryStateIndex index = true
    · simp [AgentSession.handleDataClean, observe_run observed, named, valid, pushIfComplete_run,
        cleaning]
    · simp [AgentSession.handleDataClean, observe_run observed, named, valid, pushIfComplete_run,
        cleaning]

/-- The answer to an End, and the session it leaves. -/
def SessionState.ended (s : SessionState) : SessionState :=
  let context := s.session.context
  let marked : SessionState := { s with session := { s.session with endReceived := true } }
  let processing := Answer.endAck .processing context.agentId context.sessionId context.moduleName
  if s.session.endEnqueued then { marked with responses := s.responses ++ [processing] }
  else if s.session.gapSet.empty then
    { marked.pushed with responses := s.responses ++ [processing] }
  else
    { marked with
      responses := s.responses ++ [.reqRet context.agentId context.sessionId context.moduleName
        s.session.gapSet.ranges] }

theorem handleEnd_run (s : SessionState) : AgentSession.handleEnd.run s = .ok () s.ended := by
  cases enqueued : s.session.endEnqueued with
  | true => simp [AgentSession.handleEnd, AgentSession.send, SessionState.ended, enqueued]
  | false =>
    cases all : s.session.gapSet.empty with
    | true =>
      simp [AgentSession.handleEnd, AgentSession.send, SessionState.ended, enqueued, all,
        push_run, SessionState.pushed]
    | false => simp [AgentSession.handleEnd, AgentSession.send, SessionState.ended, enqueued, all]

/-- What a call can do to a session whose gap set has the declared size. -/
inductive Performed (s : SessionState) : Call → SessionState → Prop
  | raised {call : Call} (raises : call.Raises s) (other : call ≠ .handleEnd)
      (out : ∀ n, call.seq = some n → s.session.declaredSize ≤ n) : Performed s call s
  | taken {call : Call} {n : Nat} {g : GapSet} (returns : ¬call.Raises s)
      (seq : call.seq = some n) (bound : n < s.session.declaredSize)
      (observed : s.session.gapSet.observe n = .ok g) (store : DataStore)
      (indices : Finset String) : Performed s call (SessionState.pushedIfComplete
        { s with
          store
          session := { s.session with
            gapSet := g
            context := { s.session.context with dataCleanIndices := indices } } })
  | checksum {data : ChecksumModule} (checksum checksumIndex : String)
      (returns : ¬(Call.handleChecksumModule (some data)).Raises s)
      (late : s.session.endEnqueued = true →
        checksum = s.session.context.checksum ∧ checksumIndex = s.session.context.checksumIndex) :
      Performed s (.handleChecksumModule (some data))
        { s with session.context := { s.session.context with checksum, checksumIndex } }
  | ended (returns : ¬Call.handleEnd.Raises s) : Performed s .handleEnd s.ended

theorem not_raises {s s' : SessionState} (returned : call.perform.run s = .ok () s') :
    ¬call.Raises s := by
  rintro ⟨e, t, raised⟩
  rw [returned] at raised
  cases raised

theorem after_of_ok {s s' : SessionState}
    (returned : call.perform.run s = .ok () s') : s.after call = s' := by
  simp [SessionState.after, returned]

theorem performed_raised {e : SessionError}
    (raised : call.perform.run s = .error e s) (other : call ≠ .handleEnd)
    (out : ∀ n, call.seq = some n → s.session.declaredSize ≤ n) :
    Performed s call (s.after call) := by
  have same : s.after call = s := by simp [SessionState.after, raised]
  rw [same]
  exact .raised ⟨e, s, raised⟩ other out

/-- A call that delivers a number is taken if the number is in range, and raises otherwise. -/
theorem performed_delivery {n : Nat} (sizes : s.session.gapSet.size = s.session.declaredSize)
    (seq : call.seq = some n)
    (takes : ∀ {g}, n < s.session.declaredSize → s.session.gapSet.observe n = .ok g →
      ∃ store indices, call.perform.run s = .ok () (SessionState.pushedIfComplete
        { s with
          store
          session := { s.session with
            gapSet := g
            context := { s.session.context with dataCleanIndices := indices } } }))
    (refuses : s.session.declaredSize ≤ n → ∃ e, call.perform.run s = .error e s) :
    Performed s call (s.after call) := by
  by_cases bound : n < s.session.declaredSize
  · obtain ⟨g, observed⟩ := GapSet.Records.exists_observe (sizes ▸ bound)
    obtain ⟨store, indices, returned⟩ := takes bound observed
    rw [after_of_ok returned]
    exact .taken (not_raises returned) seq bound observed store indices
  · have out := Nat.not_lt.mp bound
    obtain ⟨e, raised⟩ := refuses out
    apply performed_raised raised
    · rintro rfl
      cases seq
    · intro m seq'
      cases seq.symm.trans seq'
      exact out

theorem after_performed (s : SessionState)
    (sizes : s.session.gapSet.size = s.session.declaredSize) (call : Call) :
    Performed s call (s.after call) := by
  cases call with
  | handleData data raw =>
    cases data with
    | none => exact performed_raised rfl (by simp) (by simp [Call.seq])
    | some d =>
      apply performed_delivery sizes rfl
      · intro g bound observed
        exact ⟨_, s.session.context.dataCleanIndices, handleData_run bound observed⟩
      · intro out
        simp only [Call.perform, AgentSession.handleData, EStateM.run_bind, EStateM.run_get, out,
          if_true]
        exact ⟨_, rfl⟩
  | handleDataContext data raw =>
    cases data with
    | none => exact performed_raised rfl (by simp) (by simp [Call.seq])
    | some d =>
      apply performed_delivery sizes rfl
      · intro g bound observed
        exact ⟨_, s.session.context.dataCleanIndices, handleDataContext_run bound observed⟩
      · intro out
        simp only [Call.perform, AgentSession.handleDataContext, EStateM.run_bind,
          EStateM.run_get, out, if_true]
        exact ⟨_, rfl⟩
  | handleDataClean data =>
    cases data with
    | none => exact performed_raised rfl (by simp) (by simp [Call.seq])
    | some d =>
      apply performed_delivery sizes rfl
      · intro g _ observed
        exact ⟨s.store, _, handleDataClean_run observed⟩
      · intro out
        have raised := observe_run_error (GapSet.Records.observe_error (sizes ▸ out))
        simp only [Call.perform, AgentSession.handleDataClean, EStateM.run_bind, raised]
        exact ⟨_, rfl⟩
  | handleChecksumModule data =>
    cases data with
    | none => exact performed_raised rfl (by simp) (by simp [Call.seq])
    | some d =>
      cases enqueued : s.session.endEnqueued with
      | true =>
        have returned : (Call.handleChecksumModule (some d)).perform.run s = .ok () s := by
          simp [Call.perform, AgentSession.handleChecksumModule, enqueued]
        rw [after_of_ok returned]
        exact .checksum s.session.context.checksum s.session.context.checksumIndex
          (not_raises returned) (fun _ => ⟨rfl, rfl⟩)
      | false =>
        have returned : (Call.handleChecksumModule (some d)).perform.run s = .ok ()
            { s with session.context := s.session.context.withChecksum d } := by
          simp [Call.perform, AgentSession.handleChecksumModule, enqueued]
        rw [after_of_ok returned]
        exact .checksum _ _ (not_raises returned) (by simp [enqueued])
  | handleEnd =>
    have returned : Call.handleEnd.perform.run s = _ := handleEnd_run s
    rw [after_of_ok returned]
    exact .ended (not_raises returned)

/-- The session agrees with the calls made on it so far. -/
structure Follows (start : Start) (sessionId : Nat) (queue : List Response) (calls : List Call)
    (s : SessionState) : Prop where
  records : s.session.gapSet.Records (observedBy start.size.toNat calls)
  size : s.session.gapSet.size = start.size.toNat
  declared : s.session.declaredSize = start.size.toNat
  received : s.session.endReceived = true ↔ .handleEnd ∈ calls
  enqueued : s.session.endEnqueued = true ↔ Complete start.size.toNat calls
  pushes : s.indexerQueue =
    queue ++ if Complete start.size.toNat calls then [⟨.ok, sessionId⟩] else []
  identity : s.session.context.sessionId = sessionId ∧
    s.session.context.agentId = (AgentSession.ofStart sessionId start).context.agentId ∧
    s.session.context.moduleName = (AgentSession.ofStart sessionId start).context.moduleName

namespace Follows

variable {start : Start} {sessionId : Nat} {queue : List Response} {calls : List Call}
  {s : SessionState} {call : Call}

theorem complete_snoc (call : Call) (complete : Complete start.size.toNat calls) :
    Complete start.size.toNat (calls ++ [call]) := by
  refine ⟨by simp [complete.1], ?_⟩
  intro n small
  obtain ⟨_, earlier, member, seq⟩ := (mem_observedBy ..).mp (complete.2 n small)
  exact (mem_observedBy ..).mpr ⟨small, earlier, by simp [member], seq⟩

theorem opened (start : Start) (sessionId : Nat) (store : DataStore) (queue : List Response)
    (responses : List Answer) :
    Follows start sessionId queue [] (.opened sessionId start store queue responses) where
  records := .ofSize start.size.toNat_lt
  size := rfl
  declared := rfl
  received := by simp [SessionState.opened, AgentSession.ofStart]
  enqueued := by simp [SessionState.opened, AgentSession.ofStart, Complete]
  pushes := by simp [SessionState.opened, Complete]
  identity := ⟨rfl, rfl, rfl⟩

section

variable (follows : Follows start sessionId queue calls s)
include follows

theorem all_observed :
    s.session.gapSet.empty = true ↔ ∀ n < start.size.toNat, n ∈ observedBy start.size.toNat calls := by
  rw [follows.records.empty_iff, follows.size]

/-- A call that delivers nothing new and is no End leaves the agreement. -/
theorem same (other : call ≠ .handleEnd) (out : ∀ n, call.seq = some n → start.size.toNat ≤ n) :
    Follows start sessionId queue (calls ++ [call]) s := by
  have observed := observedBy_snoc_of_out calls out
  have complete : Complete start.size.toNat (calls ++ [call]) ↔
      Complete start.size.toNat calls := by
    simp [Complete, observed, Ne.symm other]
  constructor
  · rw [observed]; exact follows.records
  · exact follows.size
  · exact follows.declared
  · simpa [Ne.symm other] using follows.received
  · rw [complete]; exact follows.enqueued
  · simp only [complete]; exact follows.pushes
  · exact follows.identity

theorem taken {n : Nat}
    (seq : call.seq = some n) (bound : n < s.session.declaredSize)
    (observed : s.session.gapSet.observe n = .ok g) (store : DataStore)
    (indices : Finset String) :
    Follows start sessionId queue (calls ++ [call]) (SessionState.pushedIfComplete
      { s with
        store
        session := { s.session with
          gapSet := g
          context := { s.session.context with dataCleanIndices := indices } } }) := by
  have other : call ≠ .handleEnd := by rintro rfl; cases seq
  rw [follows.declared] at bound
  obtain ⟨g', observed', size, records⟩ := follows.records.observe_ok (follows.size ▸ bound)
  obtain rfl : g = g' := by rw [observed] at observed'; cases observed'; rfl
  rw [← observedBy_snoc_of_seq calls seq bound] at records
  rw [follows.size] at size
  have received : s.session.endReceived = true ↔ .handleEnd ∈ calls ++ [call] := by
    simpa [Ne.symm other] using follows.received
  have complete : Complete start.size.toNat (calls ++ [call]) ↔
      s.session.endReceived = true ∧ g.empty = true := by
    rw [records.empty_iff, received, size, Complete]
  cases enqueued : s.session.endEnqueued with
  | true =>
    -- The session was queued before: it stays complete and is not queued again.
    have before := follows.enqueued.mp enqueued
    have after := complete_snoc call before
    simp only [SessionState.pushedIfComplete, enqueued, Bool.not_true, Bool.and_false,
      Bool.false_and, Bool.false_eq_true, if_false]
    refine ⟨records, size, follows.declared, received, by simp [after], ?_, follows.identity⟩
    simpa [before, after] using follows.pushes
  | false =>
    have before : ¬Complete start.size.toNat calls := by rw [← follows.enqueued]; simp [enqueued]
    have pushes := follows.pushes
    rw [if_neg before, append_nil] at pushes
    simp only [SessionState.pushedIfComplete, enqueued, Bool.not_false, Bool.and_true]
    by_cases ready : s.session.endReceived = true ∧ g.empty = true
    · rw [if_pos (by simp [ready.1, ready.2])]
      refine ⟨records, size, follows.declared, received, ?_, ?_, follows.identity⟩
      · simpa [SessionState.pushed] using complete.mpr ready
      · simp [SessionState.pushed, pushes, complete.mpr ready, follows.identity.1]
    · rw [if_neg (by simpa using ready)]
      refine ⟨records, size, follows.declared, received, ?_, ?_, follows.identity⟩
      · simp [complete, ready]
      · simp [complete, ready, pushes]

theorem complete_ended :
    Complete start.size.toNat (calls ++ [.handleEnd]) ↔ s.session.gapSet.empty = true := by
  rw [follows.all_observed, Complete, observedBy_snoc_of_out calls (by simp [Call.seq])]
  simp

theorem ended : Follows start sessionId queue (calls ++ [.handleEnd]) s.ended := by
  have complete := follows.complete_ended
  have records := follows.records
  have observed : observedBy start.size.toNat (calls ++ [.handleEnd]) = _ :=
    observedBy_snoc_of_out calls (by simp [Call.seq])
  rw [← observed] at records
  have pushes := follows.pushes
  simp only [SessionState.ended]
  cases enqueued : s.session.endEnqueued with
  | true =>
    have before := follows.enqueued.mp enqueued
    have after : s.session.gapSet.empty = true := follows.all_observed.mpr before.2
    refine ⟨records, follows.size, follows.declared, by simp, ?_, ?_, follows.identity⟩
    · simp [complete, after]
    · simpa [complete, after, before] using pushes
  | false =>
    have before : ¬Complete start.size.toNat calls := by rw [← follows.enqueued]; simp [enqueued]
    rw [if_neg before, append_nil] at pushes
    simp only [Bool.false_eq_true, if_false]
    split
    · rename_i all
      refine ⟨records, follows.size, follows.declared, by simp [SessionState.pushed], ?_, ?_,
        follows.identity⟩
      · simpa [SessionState.pushed, complete] using all
      · simp [SessionState.pushed, pushes, complete, all, follows.identity.1]
    · rename_i missing
      refine ⟨records, follows.size, follows.declared, by simp, ?_, ?_, follows.identity⟩
      · simp [complete, missing]
      · simp [complete, missing, pushes]

theorem sizes : s.session.gapSet.size = s.session.declaredSize := by
  rw [follows.size, follows.declared]

theorem after (call : Call) : Follows start sessionId queue (calls ++ [call]) (s.after call) := by
  have performed := after_performed s follows.sizes call
  generalize s.after call = s' at performed ⊢
  cases performed with
  | raised _ other out => exact follows.same other (follows.declared ▸ out)
  | taken _ seq bound observed store indices => exact follows.taken seq bound observed store indices
  | @checksum data checksum checksumIndex _ _ =>
    have same : Follows start sessionId queue (calls ++ [.handleChecksumModule (some data)]) s :=
      follows.same (by simp) (by simp [Call.seq])
    exact ⟨same.records, same.size, same.declared, same.received, same.enqueued, same.pushes,
      same.identity⟩
  | ended _ => exact follows.ended

end

/-- Every run of calls on a new session agrees with it. -/
theorem afterAll (start : Start) (sessionId : Nat) (store : DataStore) (queue : List Response)
    (responses : List Answer) (calls : List Call) : Follows start sessionId queue calls
      ((SessionState.opened sessionId start store queue responses).afterAll calls) := by
  induction calls using List.reverseRecOn with
  | nil => exact .opened start sessionId store queue responses
  | append_singleton calls call ih => rw [afterAll_snoc]; exact ih.after call

section

variable (follows : Follows start sessionId queue calls s)
include follows

/-- A call queues the session exactly if it completes it. -/
theorem push_iff (call : Call) : (s.after call).indexerQueue = s.indexerQueue ++
      if ¬Complete start.size.toNat calls ∧ Complete start.size.toNat (calls ++ [call]) then
        [⟨.ok, sessionId⟩] else [] := by
  rw [(follows.after call).pushes, follows.pushes]
  by_cases before : Complete start.size.toNat calls
  · simp [before, complete_snoc call before]
  · simp [before]

theorem end_processing (complete : Complete start.size.toNat (calls ++ [.handleEnd])) :
    (s.after .handleEnd).responses = s.responses ++ [.endAck .processing
      s.session.context.agentId sessionId s.session.context.moduleName] := by
  have returned : Call.handleEnd.perform.run s = _ := handleEnd_run s
  rw [after_of_ok returned, ← follows.identity.1, SessionState.ended]
  split
  · rfl
  · rw [if_pos (follows.complete_ended.mp complete)]

theorem end_missing (missing : ¬Complete start.size.toNat (calls ++ [.handleEnd])) :
    (s.after .handleEnd).responses = s.responses ++ [.reqRet s.session.context.agentId sessionId
      s.session.context.moduleName s.session.gapSet.ranges] := by
  have returned : Call.handleEnd.perform.run s = _ := handleEnd_run s
  rw [follows.complete_ended] at missing
  have unqueued : ¬s.session.endEnqueued = true := by
    rw [follows.enqueued]
    intro complete
    exact missing (follows.all_observed.mpr complete.2)
  rw [after_of_ok returned, ← follows.identity.1, SessionState.ended, if_neg unqueued,
    if_neg missing]

theorem raises_iff {n : Nat} (seq : call.seq = some n) : call.Raises s ↔ start.size.toNat ≤ n := by
  have performed := after_performed s follows.sizes call
  generalize s.after call = s' at performed
  cases performed with
  | raised raises _ out => exact ⟨fun _ => follows.declared ▸ out n seq, fun _ => raises⟩
  | taken returns seq' bound _ _ _ =>
    obtain rfl : n = _ := Option.some.inj (seq.symm.trans seq')
    rw [follows.declared] at bound
    exact ⟨fun raises => absurd raises returns, fun out => by omega⟩
  | checksum => cases seq
  | ended => cases seq

theorem after_raises (raises : call.Raises s) : s.after call = s := by
  have performed := after_performed s follows.sizes call
  generalize s.after call = s' at performed ⊢
  cases performed with
  | raised => rfl
  | taken returns | checksum _ _ returns | ended returns => exact absurd raises returns

theorem checksum_fixed (complete : Complete start.size.toNat calls) (data : Option ChecksumModule) :
    (s.after (.handleChecksumModule data)).session.context.checksum = s.session.context.checksum ∧
      (s.after (.handleChecksumModule data)).session.context.checksumIndex =
        s.session.context.checksumIndex := by
  have performed := after_performed s follows.sizes (.handleChecksumModule data)
  generalize s.after (.handleChecksumModule data) = s' at performed ⊢
  cases performed with
  | raised => exact ⟨rfl, rfl⟩
  | taken _ seq => cases data <;> cases seq
  | checksum _ _ _ late => exact late (follows.enqueued.mpr complete)

end

end Follows

/-- How a session that has seen the given calls stands to the indexer queue, and what its
handlers do next. -/
structure QueuedOnCompletion (start : Start) (sessionId : Nat) (queue : List Response)
    (calls : List Call) (s : SessionState) : Prop where
  /-- The queue holds the session once if the calls are complete, else not at all. -/
  queued : s.indexerQueue = queue ++
    if Complete start.size.toNat calls then [⟨.ok, sessionId⟩] else []
  /-- A call adds the session exactly if it completes the calls. -/
  push : ∀ call, (s.after call).indexerQueue = s.indexerQueue ++
    if ¬Complete start.size.toNat calls ∧ Complete start.size.toNat (calls ++ [call]) then
      [⟨.ok, sessionId⟩] else []
  processing : Complete start.size.toNat (calls ++ [.handleEnd]) →
    (s.after .handleEnd).responses = s.responses ++ [.endAck .processing
      s.session.context.agentId sessionId s.session.context.moduleName]
  /-- The ranges hold exactly the numbers still missing. -/
  missing : ¬Complete start.size.toNat (calls ++ [.handleEnd]) →
    ∃ ranges, (s.after .handleEnd).responses = s.responses ++ [.reqRet
        s.session.context.agentId sessionId s.session.context.moduleName ranges] ∧
      ∀ n, (∃ range ∈ ranges, range.1 ≤ n ∧ n ≤ range.2) ↔
        n < start.size.toNat ∧ n ∉ observedBy start.size.toNat calls
  outOfRange : ∀ (call : Call) n, call.seq = some n → (call.Raises s ↔ start.size.toNat ≤ n)
  unchanged : ∀ call : Call, call.Raises s → s.after call = s
  checksum : Complete start.size.toNat calls → ∀ data,
    (s.after (.handleChecksumModule data)).session.context.checksum = s.session.context.checksum ∧
      (s.after (.handleChecksumModule data)).session.context.checksumIndex =
        s.session.context.checksumIndex

/-- **A session is queued for indexing once, by the call that completes it.** Take a session of
any declared size and any calls on it, in any order and with any duplicates. The queue holds the
session exactly if an End and every sequence number have arrived. -/
theorem session_queued_on_completion (start : Start) (sessionId : Nat) (store : DataStore)
    (queue : List Response) (responses : List Answer) (calls : List Call) :
    QueuedOnCompletion start sessionId queue calls
      ((SessionState.opened sessionId start store queue responses).afterAll calls) := by
  have follows := Follows.afterAll start sessionId store queue responses calls
  refine ⟨follows.pushes, follows.push_iff, follows.end_processing, ?_,
    fun _ _ => follows.raises_iff, fun _ => follows.after_raises, follows.checksum_fixed⟩
  intro missing
  refine ⟨_, follows.end_missing missing, ?_⟩
  intro n
  rw [follows.records.mem_ranges, follows.size]

end GuardSarm.Inventory
