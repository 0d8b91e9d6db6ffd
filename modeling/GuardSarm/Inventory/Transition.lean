import GuardSarm.Inventory.Facade
import GuardSarm.Indexer.Callbacks

/-! Every way the manager can take a step, with the connector reduced to the
callbacks it holds. What the later modules prove about runs, they prove from
`Transition` and from `Handled`, which says what a call on a session can do. -/
namespace GuardSarm.Inventory

open Option

open Indexer

variable {env : Environment} {server : Server} {fuel : Nat} {context : Context}
  {c : Connector Notify}

theorem indexValue_callbacks {c₀ : Connector Notify} (done : Indexed) (data : DataValue)
    (same : c.notify = c₀.notify) :
    KeepsCallbacks (indexValue env server fuel context done data) c₀ c := by
  rw [indexValue]
  split
  · exact Outcome.pure same
  · split
    · apply Outcome.bind
      exact (bulkDelete_callbacks _ _ same).mono (fun _ _ kept => Outcome.pure kept) (fun _ _ h => h)
    · split
      · exact Outcome.pure same
      · apply Outcome.bind
        exact (bulkIndex_callbacks _ _ _ _ same).mono (fun _ _ kept => Outcome.pure kept)
          (fun _ _ h => h)

theorem attemptAll_callbacks {actions : List (Connector.Action Notify Unit)} {c₀ : Connector Notify}
    (each : ∀ action ∈ actions, ∀ c, c.notify = c₀.notify → KeepsCallbacks action c₀ c)
    (same : c.notify = c₀.notify) : KeepsCallbacks (attemptAll actions) c₀ c := by
  refine Outcome.foldlM (P := fun c' : Connector Notify => c'.notify = c₀.notify) ?_ _ same
  intro action member enqueued c' same'
  apply Outcome.bind
  apply Outcome.tryCatch
  apply Outcome.bind
  refine (each action member c' same').mono ?_ ?_
  · intro _ _ kept
    exact Outcome.pure (Outcome.pure kept)
  · intro _ _ kept
    exact Outcome.pure (Outcome.pure kept)

/-- Indexing a session registers no callback and drops none. -/
theorem indexSession_callbacks (entries : List Entry) :
    KeepsCallbacks (indexSession env server fuel context entries) c c := by
  refine (attemptAll_callbacks ?_ rfl : KeepsCallbacks _ c c).andThen ?_
  · intro action member c' same
    obtain ⟨index, _, rfl⟩ := List.mem_map.mp member
    exact queueDelete_callbacks _ _ same
  · intro cleaned c₁ same₁
    refine (Outcome.foldlM (P := fun c' => c'.notify = c.notify) ?_ _ same₁).andThen ?_
    · intro entry _ done c' same
      rw [indexEntry]
      split
      · exact Outcome.pure same
      · split
        · exact indexValue_callbacks done _ same
        · exact Outcome.throw same
    · intro indexed c₂ same₂
      apply Outcome.bind
      refine (attemptAll_callbacks ?_ same₂).mono (fun _ _ h => Outcome.pure h) (fun _ _ h => h)
      intro action member c' same
      rw [sweepActions] at member
      split at member
      · obtain ⟨index, _, rfl⟩ := List.mem_map.mp member
        exact deleteByQueryExceptIds_callbacks _ _ _ same
      · cases member

/-- An update adds its callback; where it returns, that or nothing is left. -/
theorem updateSession_callbacks (object : Nat) :
    Outcome (updateSession env server fuel context object) c
      (fun _ c' => c'.notify = c.notify ++ [.updated object] ∨ c'.notify = [])
      (fun e c' => e = .retrying ∨ c'.notify = [] ∨ (c'.notify = c.notify ++ [.updated object] ∧
          ∃ events, server.available events = false)) := by
  apply Outcome.modify_bind
  exact executeUpdateByQuery_callbacks _ _

/-- What of a session never changes. -/
structure Identity where
  sessionId : Nat
  agentId : String
  moduleName : String
  mode : Mode
  option : SyncOption
  indices : List String
  declaredSize : Nat

def AgentSession.identity (s : AgentSession) : Identity :=
  ⟨s.context.sessionId, s.context.agentId, s.context.moduleName, s.context.mode,
    s.context.option, s.context.indices, s.declaredSize⟩

/-- The statuses after which an agent expects no other for the session. -/
def Status.isTerminal : Status → Bool
  | .ok | .error | .checksumMismatch => true
  | .offline | .processing => false

/-- The status of an answer that ends a session. -/
def Answer.terminal : Answer → Option Status
  | .endAck status _ _ _ => if status.isTerminal then some status else none
  | .startAck _ _ _ _ | .reqRet _ _ _ _ => none

def Call.key : Call → Option Key
  | .handleData (some data) _ => some (dataKey data.session data.seq)
  | .handleDataContext (some data) _ => some (contextKey data.session data.seq)
  | _ => none

/-- What a call may have done so far to a session and to what the session refers to. -/
structure Handled (s : SessionState) (call : Call) (t : SessionState) : Prop where
  identity : t.session.identity = s.session.identity
  owns : t.session.context.ownsAgentLock = s.session.context.ownsAgentLock
  pushes : (t.indexerQueue = s.indexerQueue ∧ t.session.endEnqueued = s.session.endEnqueued) ∨
    (s.session.endEnqueued = false ∧ t.session.endEnqueued = true ∧
      t.indexerQueue = s.indexerQueue ++ [⟨.ok, s.session.context.sessionId⟩])
  answers : ∃ more, t.responses = s.responses ++ more ∧ ∀ answer ∈ more, answer.terminal = none
  store : t.store = s.store ∨ ∃ key value, call.key = some key ∧ t.store = s.store.put key value

namespace Handled

variable {s t : SessionState} {call : Call}

theorem refl (s : SessionState) (call : Call) : Handled s call s :=
  ⟨rfl, rfl, .inl ⟨rfl, rfl⟩, ⟨[], by simp⟩, .inl rfl⟩

section

variable (handled : Handled s call t)
include handled

/-- A change of the session that touches neither its identity nor its flags. -/
theorem changed {session : AgentSession}
    (identity : session.identity = t.session.identity)
    (owns : session.context.ownsAgentLock = t.session.context.ownsAgentLock)
    (enqueued : session.endEnqueued = t.session.endEnqueued) :
    Handled s call { t with session } := by
  refine ⟨identity.trans handled.identity, owns.trans handled.owns, ?_, handled.answers,
    handled.store⟩
  simpa only [enqueued] using handled.pushes

theorem observe (seq : Nat) :
    Outcome (AgentSession.observe seq) t (fun _ => Handled s call) (fun _ => Handled s call) := by
  apply Outcome.get_bind
  split
  · exact Outcome.set (handled.changed rfl rfl rfl)
  · exact Outcome.throw handled

theorem pushed (unqueued : t.session.endEnqueued = false) : Handled s call t.pushed := by
  refine ⟨handled.identity, handled.owns, .inr ?_, handled.answers, handled.store⟩
  rcases handled.pushes with ⟨queue, enqueued⟩ | ⟨_, enqueued, _⟩
  · have id : t.session.context.sessionId = s.session.context.sessionId :=
      congrArg Identity.sessionId handled.identity
    exact ⟨enqueued ▸ unqueued, rfl, by simp [SessionState.pushed, queue, id]⟩
  · rw [unqueued] at enqueued
    cases enqueued

theorem pushIfComplete :
    Outcome AgentSession.pushIfComplete t (fun _ => Handled s call) (fun _ => Handled s call) := by
  have kept : Handled s call t.pushedIfComplete := by
    rw [SessionState.pushedIfComplete]
    split
    · rename_i ready
      simp only [Bool.and_eq_true, Bool.not_eq_true'] at ready
      exact handled.pushed ready.1.2
    · exact handled
  rw [Outcome, pushIfComplete_run]
  exact kept

theorem stored {key : Key} (writes : call.key = some key)
    (unchanged : t.store = s.store) (value : Payload) :
    Handled s call { t with store := t.store.put key value } :=
  ⟨handled.identity, handled.owns, handled.pushes, handled.answers,
    .inr ⟨key, value, writes, by rw [unchanged]⟩⟩

theorem sent {answer : Answer} (open_ : answer.terminal = none) :
    Handled s call { t with responses := t.responses ++ [answer] } := by
  obtain ⟨more, responses, kinds⟩ := handled.answers
  refine ⟨handled.identity, handled.owns, handled.pushes,
    ⟨more ++ [answer], by simp [responses], ?_⟩, handled.store⟩
  intro a member
  rcases List.mem_append.mp member with old | new
  · exact kinds a old
  · rw [List.mem_singleton.mp new]; exact open_

end

theorem ended (s : SessionState) : Handled s .handleEnd s.ended := by
  have marked : Handled s .handleEnd { s with session := { s.session with endReceived := true } } :=
    (refl s .handleEnd).changed rfl rfl rfl
  rw [SessionState.ended]
  split
  · exact marked.sent rfl
  · rename_i unqueued
    split
    · exact (marked.pushed (by simpa using unqueued)).sent rfl
    · exact marked.sent rfl

end Handled

theorem perform_handled (s : SessionState) (call : Call) :
    Outcome call.perform s (fun _ => Handled s call) (fun _ => Handled s call) := by
  cases call with
  | handleData data raw | handleDataContext data raw =>
    cases data with
    | none => exact Outcome.throw (.refl s _)
    | some data =>
      apply Outcome.get_bind
      split
      · exact Outcome.throw (.refl s _)
      · apply Outcome.modify_bind
        refine (((Handled.refl s _).stored rfl rfl raw).observe data.seq).andThen ?_
        exact fun _ _ handled => handled.pushIfComplete
  | handleDataClean data =>
    cases data with
    | none => exact Outcome.throw (.refl s _)
    | some data =>
      refine ((Handled.refl s _).observe data.seq).andThen ?_
      intro _ t handled
      split
      · split
        · apply Outcome.modify_bind
          apply Handled.pushIfComplete
          exact handled.changed rfl rfl rfl
        · exact handled.pushIfComplete
      · exact handled.pushIfComplete
  | handleChecksumModule data =>
    cases data with
    | none => exact Outcome.throw (.refl s _)
    | some data =>
      apply Outcome.get_bind
      split
      · exact Outcome.pure (.refl s _)
      · exact Outcome.set ((Handled.refl s _).changed rfl rfl rfl)
  | handleEnd =>
    rw [Outcome, Call.perform, handleEnd_run]
    exact .ended s

theorem after_handled (s : SessionState) (call : Call) : Handled s call (s.after call) := by
  have handled := perform_handled s call
  rw [SessionState.after]
  split
  · rename_i returned
    exact handled.of_ok returned
  · rename_i raised
    exact handled.of_error raised

/-- A step of the manager. Where the connector is called, only its callbacks are told. -/
inductive Transition (f : Facade) : Act → Facade → Prop
  | message {message : Message} (free : f.exclusive = none) :
      Transition f (.message message) (f.handle message.session message.call)
  | dataBatch {values : List (Option DataValue)} (free : f.exclusive = none) :
      Transition f (.dataBatch values) { f with batches := f.batches ++ [values] }
  | batchEnd {batch : Nat} (found : f.batches[batch]? = some []) :
      Transition f (.batchItem batch) { f with batches := f.batches.eraseIdx batch }
  | batchItem {batch : Nat} {value : Option DataValue} {values : List (Option DataValue)}
      (found : f.batches[batch]? = some (value :: values)) :
      Transition f (.batchItem batch)
        ({ f with batches := f.batches.set batch values }.handleBatchItem value)
  | start {start : Start} {isAvailable : Bool} :
      Transition f (.start start isAvailable) (f.receiveStart start isAvailable)
  | openSession {start : Start} {sessionId : UInt64} (checked : start ∈ f.admitting)
      (free : f.exclusive = none) (idle : f.batches = []) :
      Transition f (.openSession start sessionId) (f.openSession start sessionId.toNat)
  | deleteAgent {agentId : String} {isAvailable : Bool} (free : f.phase.holdsConnector = false)
      (c : Connector Notify) (same : c.notify = f.indexerConnector.notify) :
      Transition f (.deleteAgent agentId isAvailable) { f with indexerConnector := c }
  | perform {t : Thread} {op : Op} {rest : List Op} (next : f.todo t = op :: rest)
      (may : ∀ session, op = .eraseSession session → f.mayErase t = true) :
      Transition f (.perform t) (f.perform t rest op)
  | passed {input : Input} {response : Response} {rest : List Response}
      (phase : f.phase = .idle) (done : f.todo .indexer = [])
      (queue : f.indexerQueue = response :: rest)
      (gone : f.find (f.context response.context).sessionId = none) :
      Transition f (.index input) { f with indexerQueue := rest }
  | taken {input : Input} {response : Response} {rest : List Response}
      (phase : f.phase = .idle) (done : f.todo .indexer = [])
      (queue : f.indexerQueue = response :: rest) {object : Nat}
      (live : f.find (f.context response.context).sessionId = some object) :
      Transition f (.index input)
        { f with
          indexerQueue := rest
          phase := if (f.context response.context).mode.locksAgent then .lock response.context
            else .handle response.context }
  | locked {input : Input} {object : Nat} (phase : f.phase = .lock object)
      (done : f.todo .indexer = []) :
      Transition f (.index input)
        { (f.lockAgent (f.context object).agentId).2 with phase := .own object }
  | owned {input : Input} {object : Nat} (phase : f.phase = .own object)
      (done : f.todo .indexer = []) :
      Transition f (.index input) { f.setOwnsAgentLock object true with phase := .flush object }
  | flushed {input : Input} {object : Nat} (phase : f.phase = .flush object)
      (done : f.todo .indexer = []) {callbacks : List Notify} (c : Connector Notify)
      (split : callbacks ++ c.notify = f.indexerConnector.notify) :
      Transition f (.index input)
        ({ f with indexerConnector := c, phase := .wait object }.setTodo .indexer
          (callbacks.flatMap f.notifyOps))
  | flushRaised {input : Input} {object : Nat} (phase : f.phase = .flush object)
      (done : f.todo .indexer = []) (c : Connector Notify)
      (same : c.notify = f.indexerConnector.notify) :
      Transition f (.index input) ({ f with indexerConnector := c }.caught object)
  | waited {input : Input} {object : Nat} (phase : f.phase = .wait object)
      (done : f.todo .indexer = []) (free : f.exclusive = none)
      (none_ : f.getActiveSessionCount (f.context object).agentId
        (f.context object).sessionId = 0) :
      Transition f (.index input) { f with phase := .handle object }
  | zombies {input : Input} {object : Nat} (phase : f.phase = .wait object)
      (done : f.todo .indexer = []) (free : f.exclusive = none) (idle : f.batches = []) :
      Transition f (.index input)
        ({ f with phase := .handle object, exclusive := some .indexer }.setTodo .indexer
          (f.cleanupZombies (f.context object).agentId (f.context object).sessionId ++
            [Op.releaseSessions]))
  | updated {input : Input} {object : Nat} (phase : f.phase = .handle object)
      (done : f.todo .indexer = []) (locks : (f.context object).mode.locksAgent = true)
      (c : Connector Notify)
      (left : c.notify = f.indexerConnector.notify ++ [.updated object] ∨ c.notify = []) :
      Transition f (.index input) { f with indexerConnector := c, phase := .unlock }
  | updateRaised {input : Input} {object : Nat} (phase : f.phase = .handle object)
      (done : f.todo .indexer = []) (locks : (f.context object).mode.locksAgent = true)
      (c : Connector Notify)
      (left : c.notify = [] ∨ (c.notify = f.indexerConnector.notify ++ [.updated object] ∧
        ∃ events, input.server.available events = false)) :
      Transition f (.index input) ({ f with indexerConnector := c }.caught object)
  | checked {input : Input} {object : Nat} (phase : f.phase = .handle object)
      (done : f.todo .indexer = []) (mode : (f.context object).mode = .moduleCheck) :
      Transition f (.index input)
        ({ f with phase := .unlock }.setTodo .indexer
          [.sendEndAck (moduleCheck (f.context object) input.managerChecksum) object,
            .eraseSession (f.context object).sessionId])
  | indexed {input : Input} {object : Nat} (phase : f.phase = .handle object)
      (done : f.todo .indexer = []) (unlocked : (f.context object).mode.locksAgent = false)
      (mode : (f.context object).mode ≠ .moduleCheck) {pending : Bool} (c : Connector Notify)
      (same : c.notify = f.indexerConnector.notify) :
      Transition f (.index input) { f with indexerConnector := c, phase := .scan object pending }
  | indexRaised {input : Input} {object : Nat} (phase : f.phase = .handle object)
      (done : f.todo .indexer = []) (unlocked : (f.context object).mode.locksAgent = false)
      (mode : (f.context object).mode ≠ .moduleCheck) (c : Connector Notify)
      (same : c.notify = f.indexerConnector.notify) :
      Transition f (.index input) ({ f with indexerConnector := c }.caught object)
  | scanned {input : Input} {object : Nat} {pending : Bool}
      (phase : f.phase = .scan object pending) (done : f.todo .indexer = []) :
      Transition f (.index input) (f.scanSession input object pending)
  | finished {input : Input} {object : Nat} {pending : Bool}
      (phase : f.phase = .finish object pending) (done : f.todo .indexer = []) :
      Transition f (.index input) (f.finishSession object pending)
  | unlocked {input : Input} (phase : f.phase = .unlock) (done : f.todo .indexer = []) :
      Transition f (.index input) { f with phase := .invoke }
  | invoked {input : Input} (phase : f.phase = .invoke) (done : f.todo .indexer = [])
      {callbacks : List Notify} (c : Connector Notify)
      (split : callbacks ++ c.notify = f.indexerConnector.notify) :
      Transition f (.index input)
        ({ f with indexerConnector := c, phase := .idle }.setTodo .indexer
          (callbacks.flatMap f.notifyOps))
  | timer {server : Server} {fuel : Nat} (done : f.todo .timer = [])
      (free : f.phase.holdsConnector = false) {callbacks : List Notify} (c : Connector Notify)
      (split : callbacks ++ c.notify = f.indexerConnector.notify) :
      Transition f (.timer server fuel)
        ({ f with indexerConnector := c }.setTodo .timer (callbacks.flatMap f.notifyOps))
  | timeOut {session object : Nat} (free : f.exclusive = none) (idle : f.batches = [])
      (live : f.find session = some object) :
      Transition f (.timeOut session) (f.timeOut session object)
  | lockScan {agentId : String} :
      Transition f (.lockScan agentId)
        { (f.lockAgent agentId).2 with
          scans := (f.lockAgent agentId).2.scans ++ [⟨agentId, (f.lockAgent agentId).1⟩] }
  | unlockScan {scan : FeedScan} (member : scan ∈ f.scans) :
      Transition f (.unlockScan scan)
        (if scan.locked then { f with scans := f.scans.erase scan }.unlockAgent scan.agentId
          else { f with scans := f.scans.erase scan })
  | stop : Transition f .stop (f.lockAgent "").2

theorem Transition.reached {f g g' : Facade} {act : Act} (moved : Transition f act g)
    (same : some g = some g') : Transition f act g' :=
  Option.some.inj same ▸ moved

/-- A call of the connector that ended satisfies its postcondition. -/
theorem ended_outcome {α : Type} {action : Connector.Action Notify α} {a : Option α}
    {c c' : Connector Notify} {Q : α → Connector Notify → Prop}
    {R : ConnectorError → Connector Notify → Prop} (outcome : Outcome action c Q R)
    (done : ended (action.run c) = some (a, c')) :
    (∃ b, a = some b ∧ Q b c') ∨ (a = none ∧ ∃ e, e ≠ .retrying ∧ R e c') := by
  rw [Outcome] at outcome
  cases result : action.run c with
  | ok b t =>
    rw [result] at done outcome
    obtain ⟨rfl, rfl⟩ : some b = a ∧ t = c' := by simpa [ended] using done
    exact .inl ⟨b, rfl, outcome⟩
  | error e t =>
    rw [result] at done outcome
    cases e with
    | retrying | outOfBounds => simp [ended] at done
    | connectorException | noServer =>
      obtain ⟨rfl, rfl⟩ : none = a ∧ t = c' := by simpa [ended] using done
      exact .inr ⟨rfl, _, by simp, outcome⟩

namespace Facade

variable {f g : Facade} {input : Input} {object : Nat}

theorem flushPending_transition (phase : f.phase = .flush object) (done : f.todo .indexer = [])
    (moved : f.flushPending input object = some g) : Transition f (.index input) g := by
  simp only [flushPending, map_eq_some_iff, Prod.exists] at moved
  obtain ⟨callbacks, c, ran, rfl⟩ := moved
  rcases ended_outcome flush_callbacks ran with ⟨callbacks, rfl, split⟩ | ⟨rfl, _, _, same⟩
  · exact .flushed phase done c split
  · exact .flushRaised phase done c same

theorem waitForAgentSessions_transition (phase : f.phase = .wait object)
    (done : f.todo .indexer = []) (free : f.exclusive = none) :
    f.waitForAgentSessions input object = some g → Transition f (.index input) g := by
  fun_cases waitForAgentSessions f input object with
  | case1 context none_ => exact .reached (.waited phase done free none_)
  | case2 context _ timedOut =>
    simp only [Bool.and_eq_true, List.isEmpty_iff] at timedOut
    exact .reached (.zombies phase done free timedOut.2)
  | case3 => nofun

theorem handleSession_transition (phase : f.phase = .handle object) (done : f.todo .indexer = [])
    (moved : f.handleSession env input object = some g) : Transition f (.index input) g := by
  rw [handleSession] at moved
  split at moved
  · rename_i locks
    simp only [map_eq_some_iff, Prod.exists] at moved
    obtain ⟨returned, c, ran, rfl⟩ := moved
    rcases ended_outcome (updateSession_callbacks object) ran with
      ⟨_, rfl, left⟩ | ⟨rfl, e, settled, raised⟩
    · exact .updated phase done locks c left
    · exact .updateRaised phase done locks c (raised.resolve_left settled)
  · rename_i unlocked
    split at moved
    · rename_i mode
      cases moved
      exact .checked phase done mode
    · rename_i mode
      simp only [map_eq_some_iff, Prod.exists] at moved
      obtain ⟨pending, c, ran, rfl⟩ := moved
      rcases ended_outcome (indexSession_callbacks _) ran with ⟨_, rfl, same⟩ | ⟨rfl, _, _, same⟩
      · exact .indexed phase done (by simpa using unlocked) mode c same
      · exact .indexRaised phase done (by simpa using unlocked) mode c same

theorem takeResponse_transition (phase : f.phase = .idle) (done : f.todo .indexer = []) :
    f.takeResponse = some g → Transition f (.index input) g := by
  fun_cases takeResponse f with
  | case1 => nofun
  | case2 response rest queue =>
    cases found : f.find (f.context response.context).sessionId with
    | none =>
      simp only [found]
      exact .reached (.passed phase done queue found)
    | some live =>
      simp only [found]
      exact .reached (.taken phase done queue found)

theorem invokePendingCallbacks_transition (phase : f.phase = .invoke)
    (done : f.todo .indexer = []) (moved : f.invokePendingCallbacks = some g) :
    Transition f (.index input) g := by
  simp only [invokePendingCallbacks, map_eq_some_iff, Prod.exists] at moved
  obtain ⟨callbacks, c, ran, rfl⟩ := moved
  have outcome : Outcome Connector.invokePendingCallbacks f.indexerConnector _ _ :=
    takeCallbacks_callbacks rfl
  rcases ended_outcome outcome ran with ⟨callbacks, rfl, split⟩ | ⟨rfl, _, _, same⟩
  · exact .invoked phase done c split
  · exact .invoked phase done c same

theorem timer_transition {server : Server} {fuel : Nat} (done : f.todo .timer = [])
    (free : f.phase.holdsConnector = false) (moved : f.timer server fuel = some g) :
    Transition f (.timer server fuel) g := by
  simp only [timer, map_eq_some_iff, Prod.exists] at moved
  obtain ⟨callbacks, c, ran, rfl⟩ := moved
  rcases ended_outcome timer_callbacks ran with ⟨callbacks, rfl, split⟩ | ⟨rfl, _, _, same⟩
  · exact .timer done free c split
  · exact .timer done free c same

theorem deleteAgent_transition {agentId : String} {isAvailable : Bool}
    (free : f.phase.holdsConnector = false) :
    Transition f (.deleteAgent agentId isAvailable) (f.deleteAgent agentId isAvailable) := by
  rw [deleteAgent]
  split
  · exact .deleteAgent free f.indexerConnector rfl
  · have outcome : KeepsCallbacks (Connector.queueDelete "guardsarm-states-*".toList agentId)
      f.indexerConnector f.indexerConnector := queueDelete_callbacks _ _ rfl
    split
    · rename_i ran
      exact .deleteAgent free _ (outcome.of_ok ran)
    · rename_i ran
      exact .deleteAgent free _ (outcome.of_error ran)

theorem performNext_transition {t : Thread} :
    f.performNext t = some g → Transition f (.perform t) g := by
  fun_cases performNext f t with
  | case2 session rest next may => exact .reached (.perform next fun _ _ => may)
  | case4 op rest other next =>
    exact .reached (.perform next fun session same => absurd same (other session))
  | _ => nofun

theorem index_transition (done : f.todo .indexer = []) :
    f.index env input = some g → Transition f (.index input) g := by
  fun_cases index env f input with
  | case1 phase => exact takeResponse_transition phase done
  | case3 object phase => exact .reached (.locked phase done)
  | case4 object phase => exact .reached (.owned phase done)
  | case5 object phase => exact flushPending_transition phase done
  | case6 object phase free =>
    exact waitForAgentSessions_transition phase done (by simpa using free)
  | case8 object phase => exact handleSession_transition phase done
  | case9 object pending phase => exact .reached (.scanned phase done)
  | case10 object pending phase => exact .reached (.finished phase done)
  | case11 phase => exact .reached (.unlocked phase done)
  | case12 phase => exact invokePendingCallbacks_transition phase done
  | _ => nofun

theorem batchItem_transition {batch : Nat} :
    f.batchItem batch = some g → Transition f (.batchItem batch) g := by
  fun_cases batchItem f batch with
  | case1 => nofun
  | case2 found => exact .reached (.batchEnd found)
  | case3 value values found => exact .reached (.batchItem found)

/-- **Every step is one of the transitions.** -/
theorem step_transition {act : Act} : f.step env act = some g → Transition f act g := by
  fun_cases step env f act with
  | case1 message free => exact .reached (.message (by simpa using free))
  | case3 values free => exact .reached (.dataBatch (by simpa using free))
  | case5 batch => exact batchItem_transition
  | case6 start isAvailable => exact .reached .start
  | case7 start sessionId guards => exact .reached (.openSession guards.1 guards.2.1 guards.2.2)
  | case10 agentId isAvailable free => exact .reached (deleteAgent_transition (by simpa using free))
  | case11 t => exact performNext_transition
  | case12 input done => exact index_transition done
  | case14 server fuel guards => exact timer_transition guards.1 guards.2
  | case16 session guards =>
    intro moved
    obtain ⟨object, live, rfl⟩ := map_eq_some_iff.mp moved
    exact .timeOut guards.1 guards.2 live
  | case18 agentId locked g locking =>
    have moved := @Transition.lockScan f agentId
    rw [locking] at moved
    exact .reached moved
  | case19 scan member => exact .reached (.unlockScan member)
  | case21 => exact .reached .stop
  | _ => nofun

/-- The manager takes a step. -/
def Takes (env : Environment) (f : Facade) (act : Act) (g : Facade) : Prop :=
  f.step env act = some g

end Facade

/-- An environment for concrete runs: every body is a document. -/
def Environment.plain : Environment where
  maxBulkSize := 1000
  clusterName := fun _ => "cluster"
  document := fun _ body => some body.toList
  query := fun _ => "query"

/-- A Start of one module of an agent. -/
def sampleStart (agentId : String) : Start where
  moduleName := some "fim"
  mode := .moduleDelta
  size := 1
  index := ["guardsarm-states-fim"]
  option := .sync
  agentId := some agentId

/-- The value that a session of `sampleStart` is for. -/
def sampleData (session : Nat) : DataValue where
  seq := 0
  session
  operation := .upsert
  id := some "file"
  index := some "guardsarm-states-fim"
  version := 1
  data := some "body"

/-- An indexer that answers every call, and no scanner. -/
def Input.quiet : Input where
  server := .accepting
  fuel := 3
  timedOut := false
  managerChecksum := fun _ => none
  scanner := ⟨false, false, false, false⟩

def Input.raising : Input := { Input.quiet with scanner := ⟨true, true, false, true⟩ }

def Input.unavailable : Input :=
  { Input.quiet with server := { Indexer.Server.accepting with available := fun _ => false } }

/-- The steps that open a session where none is stale. -/
def opening (start : Start) (sessionId : UInt64) : List Act :=
  [.start start true, .openSession start sessionId, .perform .admission, .perform .admission]

end GuardSarm.Inventory
