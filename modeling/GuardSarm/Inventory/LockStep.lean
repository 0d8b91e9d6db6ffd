import GuardSarm.Inventory.Answers

/-! The agents' locks, step by step. A session of a metadata or group mode is owed one
release of its agent's lock, which moves from the indexer thread to a callback or to the
operations of a thread. `KeepsLocks` is the condition under which no release is made twice
and no lock is taken twice. -/
namespace GuardSarm.Inventory

open List

/-- The id under which the session of a Start is kept. -/
def Start.agent (start : Start) : String := AgentSession.padAgentId (start.agentId.getD "")

/-- The indexer thread will pass on or make the release of the session object. -/
def Phase.releases (phase : Phase) (object : Nat) : Nat :=
  match phase with
  | .own o | .flush o | .wait o | .handle o => if o = object then 1 else 0
  | _ => 0

/-- The operation releases the lock of the session object, or does so if it is owned. -/
def Op.releases (object : Nat) : Op → Bool
  | .unlockAgent o _ | .unlockIfOwned o _ true => o == object
  | _ => false

/-- The session object for which the indexer thread is taking the lock, or waits under it. -/
def Phase.locking : Phase → Option Nat
  | .lock object | .own object | .flush object | .wait object => some object
  | _ => none

namespace Facade

variable {f g : Facade} {act : Act} {object : Nat}

def releases (f : Facade) (object : Nat) : Nat :=
  f.phase.releases object + f.pending (Op.releases object) +
    f.indexerConnector.notify.count (.updated object)

/-- The Start passed its checks and its session was not created yet. -/
def Awaits (f : Facade) (start : Start) : Prop :=
  start ∈ f.admitting ∨ ∃ t sessionId, .createSession sessionId start ∈ f.todo t

/-- The agent is not locked, and no Start of it is between its checks and its admission. -/
def Unclaimed (f : Facade) (agentId : String) : Prop :=
  agentId ∉ f.blockedAgents ∧ ∀ start, f.Awaits start → start.agent ≠ agentId

/-- Before the step: a lock that is taken is free, an update finds a server, a time-out or a stale
clean-up finds a session that owns no lock, and a Start has the id its session will have or
finds its agent free. -/
def KeepsLocks (f : Facade) : Act → Prop
  | .index input =>
    match f.phase with
    | .lock object => f.Unclaimed (f.context object).agentId
    | .handle object => (f.context object).mode.locksAgent = true →
      ∀ events, input.server.available events = true
    | _ => True
  | .lockScan agentId => f.Unclaimed agentId
  | .perform t =>
    match f.todo t with
    | .unlockIfOwned object _ false :: _ => (f.context object).ownsAgentLock = false
    | _ => True
  | .start start _ => start.agent = start.agentId.getD "" ∨ start.agent ∉ f.blockedAgents
  | _ => True

/-- What a step does to the releases owed to a session object. -/
inductive ReleaseStep (f : Facade) (act : Act) (object : Nat) (g : Facade) : Prop
  | kept (le : g.releases object ≤ f.releases object)
      (none_ : ∀ agentId, f.next act ≠ some (.unlockAgent object agentId))
  | locked {input : Input} (index : act = .index input) (phase : f.phase = .lock object)
      (le : g.releases object ≤ f.releases object + 1)
  | released {agentId : String} (next : f.next act = some (.unlockAgent object agentId))
      (le : g.releases object + 1 ≤ f.releases object)
  | taken {response : Response} (member : response ∈ f.indexerQueue)
      (own : response.context = object) (free : (f.context object).mode.locksAgent = false)

variable {t : Thread}

theorem releases_scheduled {ops : List Op} (todo : g.todo = Function.update f.todo t ops)
    (paid : g.phase.releases object + ops.countP (Op.releases object) +
        g.indexerConnector.notify.count (.updated object) ≤
      f.phase.releases object + (f.todo t).countP (Op.releases object) +
        f.indexerConnector.notify.count (.updated object)) :
    g.releases object ≤ f.releases object := by
  have counts := pending_update todo (Op.releases object)
  simp only [releases]
  omega

theorem releases_moved (todo : g.todo = f.todo)
    (paid : g.phase.releases object + g.indexerConnector.notify.count (.updated object) ≤
      f.phase.releases object + f.indexerConnector.notify.count (.updated object)) :
    g.releases object ≤ f.releases object := by
  simp only [releases, pending, todo]
  omega

/-- The callback of an update releases its session object once. -/
theorem releases_handedOut {callbacks : List Notify} {c : Indexer.Connector Notify}
    (split : callbacks ++ c.notify = f.indexerConnector.notify) (object : Nat) :
    (callbacks.flatMap f.notifyOps).countP (Op.releases object) +
      c.notify.count (.updated object) = f.indexerConnector.notify.count (.updated object) := by
  refine countP_handedOut (fun callback => ?_) split
  cases callback <;> simp [notifyOps, Op.releases, countP_cons]

theorem conclude_releases (f : Facade) (status : Status) (own object : Nat) :
    (f.conclude status own).countP (Op.releases object) = 0 := by
  simp [conclude, Op.releases]

theorem unlocking_releases (own object : Nat) (agentId : String) (reset : Bool) :
    (unlocking own agentId reset).countP (Op.releases object) = if own = object then 1 else 0 := by
  cases reset <;> simp [unlocking, Op.releases, countP_cons]

theorem cleanupStale_releases (f : Facade) (agentId moduleName : String) (object : Nat) :
    (f.cleanupStale agentId moduleName).countP (Op.releases object) = 0 := by
  apply countP_eq_zero.mpr
  apply forall_cleanupStale <;> simp [Op.releases]

theorem cleanupZombies_releases (f : Facade) (agentId : String) (excludeSessionId object : Nat) :
    (f.cleanupZombies agentId excludeSessionId).countP (Op.releases object) = 0 := by
  apply countP_eq_zero.mpr
  apply forall_cleanupZombies <;> simp [Op.releases]

/-- An exception passes the release of the thread on to the operations of the catch block. -/
theorem releases_caught {own : Nat} (phase : f.phase = .flush own ∨ f.phase = .handle own)
    (done : f.todo .indexer = []) (c : Indexer.Connector Notify)
    (le : c.notify.count (.updated object) ≤ f.indexerConnector.notify.count (.updated object)) :
    ({ f with indexerConnector := c }.caught own).releases object ≤ f.releases object := by
  have held : f.phase.releases object = if own = object then 1 else 0 := by
    rcases phase with phase | phase <;> rw [phase] <;> rfl
  refine releases_scheduled rfl ?_
  rw [held, countP_cons, conclude_releases, done]
  simp only [caught, setTodo, Phase.releases, Op.releases, countP_nil, beq_iff_eq]
  omega

theorem releases_performed {op : Op} {rest : List Op} (next : f.todo t = op :: rest)
    (plain : ∀ object agentId reset, op ≠ .unlockIfOwned object agentId reset) :
    (f.perform t rest op).releases object + (if op.releases object then 1 else 0) =
      f.releases object := by
  have counts := pending_update ((f.perform_frame t rest op).2.2 plain) (Op.releases object)
  rw [next, countP_cons] at counts
  rw [releases, releases, (perform_frame ..).1, (perform_frame ..).2.1]
  omega

theorem ReleaseStep.perform {op : Op} {rest : List Op}
    (next : f.todo t = op :: rest) (met : f.KeepsLocks (.perform t)) (object : Nat) :
    ReleaseStep f (.perform t) object (f.perform t rest op) := by
  have runs : f.next (.perform t) = some op := by simp [Facade.next, next]
  cases op with
  | unlockAgent own agentId =>
    have paid : (f.perform t rest (.unlockAgent own agentId)).releases object + _ = _ :=
      releases_performed next (by simp)
    simp only [Op.releases, beq_iff_eq] at paid
    by_cases same : own = object
    · subst same
      rw [if_pos rfl] at paid
      exact .released runs paid.le
    · rw [if_neg same] at paid
      exact .kept paid.le (by simp [runs, same])
  | unlockIfOwned own agentId reset =>
    refine .kept (releases_scheduled rfl ?_) (by simp [runs])
    rw [next, countP_cons, (perform_frame ..).1, (perform_frame ..).2.1]
    cases reset with
    | false =>
      have disowned : (f.context own).ownsAgentLock = false := by
        simpa only [KeepsLocks, next] using met
      rw [disowned]
      simp [Op.releases]
    | true =>
      split
      · rw [countP_append, unlocking_releases]
        simp only [Op.releases, beq_iff_eq]
        omega
      · omega
  | _ =>
    refine .kept ?_ (by simp [runs])
    exact (Nat.le_add_right _ _).trans (releases_performed next (by simp)).le

theorem releases_handle (f : Facade) (session : Nat) (call : Call) (object : Nat) :
    (f.handle session call).releases object = f.releases object := by
  obtain ⟨todo, phase, connector⟩ := f.handle_frame session call
  rw [releases, releases, pending, pending, phase, connector, todo]

theorem ReleaseStep.quiet (le : g.releases object ≤ f.releases object) (idle : f.next act = none) :
    ReleaseStep f act object g :=
  .kept le (by simp [idle])

/-- Every step that meets `KeepsLocks` keeps the releases owed to a session object, unless it
takes the object's lock, makes the release, or takes up a session that takes no lock. -/
theorem releaseStep (moved : Transition f act g) (met : f.KeepsLocks act) (object : Nat) :
    ReleaseStep f act object g := by
  cases moved with
  | message => exact .kept (releases_handle f _ _ object).le nofun
  | @batchItem batch value values found =>
    cases value with
    | none => exact .quiet le_rfl rfl
    | some data => exact .kept (releases_handle _ data.session _ object).le nofun
  | start =>
    rw [receiveStart_frame]
    exact .quiet le_rfl rfl
  | perform next _ => exact .perform next met object
  | openSession =>
    refine .quiet (releases_scheduled rfl ?_) rfl
    rw [countP_append, cleanupStale_releases]
    simp [Op.releases, openSession, setTodo]
  | deleteAgent _ c same =>
    refine .quiet (releases_moved rfl ?_) rfl
    rw [same]
  | @taken input response rest phase done queue own live =>
    have idle : f.phase.releases object = 0 := by rw [phase]; rfl
    by_cases free : response.context = object ∧ (f.context object).mode.locksAgent = false
    · exact .taken (by simp [queue]) free.1 free.2
    · refine .quiet (releases_moved rfl ?_) rfl
      split
      · simp [Phase.releases]
      · rename_i unlocked
        have other : response.context ≠ object := by
          rintro rfl
          exact free ⟨rfl, by simpa using unlocked⟩
        simp [Phase.releases, other]
  | @locked input own phase done =>
    rw [lockAgent_eq]
    by_cases own_ : own = object
    · subst own_
      refine .locked rfl phase ?_
      simp only [releases, Phase.releases, pending, if_true]
      omega
    · refine .quiet (releases_moved rfl ?_) rfl
      simp [Phase.releases, own_]
  | owned phase done | waited phase | unlocked phase =>
    refine .quiet (releases_moved rfl ?_) rfl
    rw [phase]
    rfl
  | flushed phase done c split | invoked phase done c split =>
    refine .quiet (releases_scheduled rfl ?_) rfl
    have parts := releases_handedOut split object
    rw [phase]
    simp only [setTodo, Phase.releases]
    omega
  | flushRaised phase done c same =>
    exact .quiet (releases_caught (.inl phase) done c (by rw [same])) rfl
  | zombies phase =>
    refine .quiet (releases_scheduled rfl ?_) rfl
    rw [countP_append, cleanupZombies_releases, phase]
    simp [Op.releases, setTodo, Phase.releases]
  | updated phase done locks c left =>
    refine .quiet (releases_moved rfl ?_) rfl
    rw [phase]
    rcases left with kept | dropped
    · simp only [kept, Phase.releases, count_append, count_singleton, beq_iff_eq,
        Notify.updated.injEq]
      omega
    · simp [dropped, Phase.releases]
  | @updateRaised input own phase done locks c left =>
    rcases left with dropped | ⟨_, events, unavailable⟩
    · exact .quiet (releases_caught (.inr phase) done c (by simp [dropped])) rfl
    · simp only [KeepsLocks, phase] at met
      rw [met locks events] at unavailable
      cases unavailable
  | checked phase =>
    refine .quiet (releases_scheduled rfl ?_) rfl
    simp [Op.releases, setTodo, Phase.releases]
  | indexed phase _ _ _ c same =>
    refine .quiet (releases_moved rfl ?_) rfl
    rw [phase, same]
    simp [Phase.releases]
  | indexRaised phase done _ _ c same =>
    exact .quiet (releases_caught (.inr phase) done c (by rw [same])) rfl
  | @scanned input own pending phase _ =>
    rw [scanSession]
    split
    · refine .quiet (releases_scheduled rfl ?_) rfl
      rw [conclude_releases, phase]
      simp [setTodo, Phase.releases]
    · refine .quiet (releases_moved rfl ?_) rfl
      rw [phase]
      rfl
  | finished phase =>
    rw [finishSession]
    split
    · refine .quiet (releases_moved rfl ?_) rfl
      simp [Phase.releases]
    · refine .quiet (releases_scheduled rfl ?_) rfl
      rw [conclude_releases, phase]
      simp [setTodo, Phase.releases]
  | timer done free c split =>
    refine .quiet (releases_scheduled rfl ?_) rfl
    have parts := releases_handedOut split object
    simp only [setTodo]
    omega
  | timeOut =>
    refine .quiet (releases_scheduled rfl ?_) rfl
    simp [Op.releases, timeOut, setTodo]
  | lockScan | stop =>
    rw [lockAgent_eq]
    exact .quiet le_rfl rfl
  | unlockScan =>
    split
    · rw [unlockAgent_eq]
      exact .quiet le_rfl rfl
    · exact .quiet le_rfl rfl
  | dataBatch | batchEnd | passed => exact .quiet le_rfl rfl

/-- The locks, the scans and the Starts between check and admission are the same. -/
structure SameLocks (f g : Facade) : Prop where
  blocked : g.blockedAgents = f.blockedAgents
  scans : g.scans = f.scans
  admitting : g.admitting = f.admitting

/-- What a step does to the locks, the scans and the Starts between check and admission. -/
inductive LockStep (f : Facade) : Act → Facade → Prop
  | same {act : Act} {g : Facade} (locks : SameLocks f g)
      (kept : ∀ object agentId, f.next act ≠ some (.unlockAgent object agentId))
      (free : ∀ input object, act = .index input → f.phase ≠ .lock object) : LockStep f act g
  | started {start : Start} {isAvailable : Bool} :
      LockStep f (.start start isAvailable) (f.receiveStart start isAvailable)
  | opened {start : Start} {sessionId : UInt64} :
      LockStep f (.openSession start sessionId) (f.openSession start sessionId.toNat)
  | locked {input : Input} {object : Nat} {g : Facade} (phase : f.phase = .lock object)
      (locks : SameLocks (f.lockAgent (f.context object).agentId).2 g) :
      LockStep f (.index input) g
  | unlocked {t : Thread} {object : Nat} {agentId : String} {rest : List Op}
      (next : f.todo t = .unlockAgent object agentId :: rest) :
      LockStep f (.perform t) ((f.unlockAgent agentId).setTodo t rest)
  | scanLocked {agentId : String} :
      LockStep f (.lockScan agentId)
        { (f.lockAgent agentId).2 with
          scans := (f.lockAgent agentId).2.scans ++ [⟨agentId, (f.lockAgent agentId).1⟩] }
  | scanUnlocked {scan : FeedScan} (member : scan ∈ f.scans) :
      LockStep f (.unlockScan scan)
        (if scan.locked then { f with scans := f.scans.erase scan }.unlockAgent scan.agentId
          else { f with scans := f.scans.erase scan })

theorem SameLocks.handle (f : Facade) (session : Nat) (call : Call) :
    SameLocks f (f.handle session call) := by
  rw [Facade.handle]
  split <;> exact ⟨rfl, rfl, rfl⟩

theorem SameLocks.eraseSession (f : Facade) (session : Nat) :
    SameLocks f (f.eraseSession session) := by
  rw [eraseSession_frame]
  exact ⟨rfl, rfl, rfl⟩

theorem SameLocks.createSession (f : Facade) (sessionId : Nat) (start : Start) :
    SameLocks f (f.createSession sessionId start) := by
  rw [createSession_frame]
  exact ⟨rfl, rfl, rfl⟩

theorem LockStep.quiet (locks : SameLocks f g) (idle : f.next act = none)
    (free : ∀ input object, act = .index input → f.phase ≠ .lock object) : LockStep f act g :=
  .same locks (by simp [idle]) free

theorem lockStep (moved : Transition f act g) : LockStep f act g := by
  cases moved with
  | message => exact .quiet (.handle f _ _) rfl (by simp)
  | @batchItem batch value values found =>
    cases value with
    | none => exact .quiet ⟨rfl, rfl, rfl⟩ rfl (by simp)
    | some data =>
      have same := SameLocks.handle { f with batches := f.batches.set batch values } data.session
        (.handleData (some data) (.dataValue (reserialize data)))
      exact .quiet ⟨same.blocked, same.scans, same.admitting⟩ rfl (by simp)
  | start => exact .started
  | openSession => exact .opened
  | @perform t op rest next _ =>
    have runs : f.next (.perform t) = some op := by simp [Facade.next, next]
    cases op with
    | unlockAgent object agentId => exact .unlocked next
    | eraseSession session =>
      have same := SameLocks.eraseSession f session
      exact .same ⟨same.blocked, same.scans, same.admitting⟩ (by simp [runs]) (by simp)
    | createSession sessionId start =>
      have same := SameLocks.createSession f sessionId start
      exact .same ⟨same.blocked, same.scans, same.admitting⟩ (by simp [runs]) (by simp)
    | _ => exact .same ⟨rfl, rfl, rfl⟩ (by simp [runs]) (by simp)
  | locked phase => exact .locked phase ⟨rfl, rfl, rfl⟩
  | scanned phase =>
    rw [scanSession]
    split <;> exact .quiet ⟨rfl, rfl, rfl⟩ rfl (by simp [phase])
  | finished phase =>
    rw [finishSession]
    split <;> exact .quiet ⟨rfl, rfl, rfl⟩ rfl (by simp [phase])
  | lockScan => exact .scanLocked
  | unlockScan member => exact .scanUnlocked member
  | stop =>
    refine .quiet ?_ rfl (by simp)
    exact ⟨rfl, rfl, rfl⟩
  | dataBatch | batchEnd | deleteAgent | timer | timeOut => exact .quiet ⟨rfl, rfl, rfl⟩ rfl (by simp)
  | passed phase | taken phase | owned phase | flushed phase | flushRaised phase | waited phase
  | zombies phase | updated phase | updateRaised phase | checked phase | indexed phase
  | indexRaised phase | unlocked phase | invoked phase =>
    exact .quiet ⟨rfl, rfl, rfl⟩ rfl (by simp [phase])

/-- A session object takes the lock only if its mode says so. -/
theorem locking_step (moved : Transition f act g) (after : g.phase.locking = some object) :
    f.phase.locking = some object ∨ (∃ response ∈ f.indexerQueue, response.context = object) ∧
        (f.context object).mode.locksAgent = true := by
  cases moved with
  | message =>
    rw [(handle_frame ..).2.1] at after
    exact .inl after
  | @batchItem batch value =>
    cases value with
    | none => exact .inl after
    | some data =>
      rw [handleBatchItem, (handle_frame ..).2.1] at after
      exact .inl after
  | start =>
    rw [receiveStart_frame] at after
    exact .inl after
  | perform =>
    rw [(perform_frame ..).1] at after
    exact .inl after
  | @taken input response rest phase done queue own live =>
    split at after
    · rename_i locks
      cases after
      exact .inr ⟨⟨response, by simp [queue], rfl⟩, locks⟩
    · cases after
  | locked phase | owned phase | flushed phase | waited phase | zombies phase =>
    rw [phase]
    first | exact .inl after | cases after
  | scanned phase =>
    rw [scanSession] at after
    split at after <;> cases after
  | finished phase =>
    rw [finishSession] at after
    split at after <;> cases after
  | unlockScan =>
    split at after
    · rw [unlockAgent_eq] at after
      exact .inl after
    · exact .inl after
  | lockScan | stop =>
    rw [lockAgent_eq] at after
    exact .inl after
  | flushRaised | updated | updateRaised | checked | indexed | indexRaised | unlocked | invoked =>
    cases after
  | dataBatch | batchEnd | openSession | deleteAgent | passed | timer | timeOut => exact .inl after

theorem handle_owns (f : Facade) (session : Nat) (call : Call) (object : Nat) :
    ((f.handle session call).context object).ownsAgentLock = (f.context object).ownsAgentLock := by
  rw [handle]
  split
  · rfl
  · rename_i own found
    by_cases same : object = own
    · subst same
      have handled := after_handled ⟨f.objects object, f.dataStore, [], []⟩ call
      simpa [context] using handled.owns
    · simp [context, Function.update_of_ne same]

/-- A session object owns the lock only after the indexer thread noted it. -/
theorem owns_step (moved : Transition f act g) (after : (g.context object).ownsAgentLock = true) :
    (f.context object).ownsAgentLock = true ∨ f.phase = .own object := by
  cases moved with
  | message =>
    rw [handle_owns] at after
    exact .inl after
  | @batchItem batch value =>
    cases value with
    | none => exact .inl after
    | some data =>
      rw [handleBatchItem, handle_owns] at after
      exact .inl after
  | start =>
    rw [receiveStart_frame] at after
    exact .inl after
  | @perform t op rest next _ =>
    cases op with
    | disown own =>
      by_cases same : object = own
      · subst same
        simp [Facade.perform, setTodo, setOwnsAgentLock, context] at after
      · simp [Facade.perform, setTodo, setOwnsAgentLock, context, Function.update_of_ne same] at after
        exact .inl after
    | unlockAgent own agentId =>
      rw [Facade.perform, unlockAgent_eq] at after
      exact .inl after
    | eraseSession session =>
      have same := f.eraseSession_objects session
      simp only [Facade.perform, setTodo, context, same] at after
      exact .inl after
    | createSession sessionId start =>
      simp only [Facade.perform, setTodo] at after
      have made := f.createSession_creation sessionId start
      generalize f.createSession sessionId start = h at made after
      cases made with
      | refused _ _ same =>
        rw [same] at after
        exact .inl after
      | opened =>
        by_cases new : object = f.allocated
        · simp [send, addSession, context, new, AgentSession.ofStart] at after
        · simp [send, addSession, context, Function.update_of_ne new] at after
          exact .inl after
    | _ => exact .inl after
  | @owned input own phase _ =>
    by_cases same : object = own
    · subst same
      exact .inr phase
    · simp [setOwnsAgentLock, context, Function.update_of_ne same] at after
      exact .inl after
  | scanned =>
    rw [scanSession] at after
    split at after <;> exact .inl after
  | finished =>
    rw [finishSession] at after
    split at after <;> exact .inl after
  | unlockScan =>
    split at after
    · rw [unlockAgent_eq] at after
      exact .inl after
    · exact .inl after
  | locked | lockScan | stop =>
    rw [lockAgent_eq] at after
    exact .inl after
  | dataBatch | batchEnd | openSession | deleteAgent | passed | taken | flushed | flushRaised | waited
  | zombies | updated | updateRaised | checked | indexed | indexRaised | unlocked | invoked | timer
  | timeOut => exact .inl after

theorem lockAgent_blocked (f : Facade) (agentId : String) : (f.lockAgent agentId).2.blockedAgents =
      if agentId = "" then f.blockedAgents else insert agentId f.blockedAgents := by
  rw [lockAgent]
  by_cases empty : agentId = ""
  · simp [empty]
  · simp [empty]

theorem unlockAgent_blocked (f : Facade) (agentId : String) :
    (f.unlockAgent agentId).blockedAgents =
      if agentId = "" then f.blockedAgents else f.blockedAgents.erase agentId := by
  rw [unlockAgent]
  by_cases empty : agentId = ""
  · simp [empty]
  · simp [empty]

theorem unlockAgent_subset (f : Facade) (agentId : String) :
    (f.unlockAgent agentId).blockedAgents ⊆ f.blockedAgents := by
  rw [unlockAgent_blocked]
  split
  · exact subset_rfl
  · exact Finset.erase_subset _ _

theorem receiveStart_locks (f : Facade) (start : Start) (isAvailable : Bool) :
    (f.receiveStart start isAvailable).blockedAgents = f.blockedAgents ∧
      (f.receiveStart start isAvailable).scans = f.scans := by
  rw [receiveStart_frame]
  exact ⟨rfl, rfl⟩

/-- A step that meets `KeepsLocks` locks no agent with a Start between its checks and its
admission. -/
theorem blocked_step (moved : Transition f act g) (met : f.KeepsLocks act) {agentId : String}
    (after : agentId ∈ g.blockedAgents) :
    agentId ∈ f.blockedAgents ∨ ∀ start, f.Awaits start → start.agent ≠ agentId := by
  have locked : ∀ a, f.Unclaimed a → agentId ∈ (f.lockAgent a).2.blockedAgents →
      agentId ∈ f.blockedAgents ∨ ∀ start, f.Awaits start → start.agent ≠ agentId := by
    intro a unclaimed member
    rw [lockAgent_blocked] at member
    split at member
    · exact .inl member
    · rcases Finset.mem_insert.mp member with rfl | early
      · exact .inr unclaimed.2
      · exact .inl early
  cases lockStep moved with
  | same locks _ _ => exact .inl (locks.blocked ▸ after)
  | started =>
    rw [(f.receiveStart_locks _ _).1] at after
    exact .inl after
  | opened => exact .inl after
  | @locked input object g phase locks =>
    rw [locks.blocked] at after
    have free : f.Unclaimed (f.context object).agentId := by simpa only [KeepsLocks, phase] using met
    exact locked _ free after
  | unlocked _ => exact .inl (f.unlockAgent_subset _ after)
  | scanLocked => exact locked _ met after
  | @scanUnlocked scan _ =>
    split at after
    · exact .inl (unlockAgent_subset { f with scans := f.scans.erase scan } _ after)
    · exact .inl after

/-- A scan is new, with what `lockAgent` answered it, or was there. -/
theorem scans_step (moved : Transition f act g) {scan : FeedScan} (member : scan ∈ g.scans) :
    scan ∈ f.scans ∨ act = .lockScan scan.agentId ∧ scan.locked = (f.lockAgent scan.agentId).1 := by
  cases lockStep moved with
  | same locks _ _ => exact .inl (locks.scans ▸ member)
  | started =>
    rw [(f.receiveStart_locks _ _).2] at member
    exact .inl member
  | opened => exact .inl member
  | @locked input object g phase locks =>
    rw [locks.scans, lockAgent_eq] at member
    exact .inl member
  | unlocked _ =>
    rw [unlockAgent_eq] at member
    exact .inl member
  | @scanLocked agentId =>
    rcases mem_append.mp member with early | new
    · rw [lockAgent_eq] at early
      exact .inl early
    · rw [mem_singleton.mp new]
      exact .inr ⟨rfl, rfl⟩
  | scanUnlocked _ =>
    split at member
    · rw [unlockAgent_eq] at member
      exact .inl (mem_of_mem_erase member)
    · exact .inl (mem_of_mem_erase member)

/-- A session is created for a Start that passed its checks. -/
theorem scheduled_create {ops : List Op} {sessionId : Nat} {start : Start}
    (given : Scheduled f act t ops) (creates : .createSession sessionId start ∈ ops) :
    start ∈ f.admitting := by
  have callback : ∀ callbacks : List Notify,
      .createSession sessionId start ∉ callbacks.flatMap f.notifyOps := by
    intro callbacks member
    obtain ⟨callback, _, member⟩ := mem_flatMap.mp member
    cases callback <;> simp [notifyOps] at member
  cases given with
  | flushed | invoked | timer => exact absurd creates (callback _)
  | caught | checked | scanRaised | finished | timedOut => simp [conclude] at creates
  | @zombies input object _ _ _ =>
    rcases mem_append.mp creates with zombie | release
    · have other : ∀ op ∈ f.cleanupZombies (f.context object).agentId (f.context object).sessionId,
          op ≠ .createSession sessionId start := by
        apply forall_cleanupZombies <;> simp
      exact absurd rfl (other _ zombie)
    · simp at release
  | @admitted new number checked _ _ =>
    rcases mem_append.mp creates with stale | create
    · have other : ∀ op ∈ f.cleanupStale (new.agentId.getD "") (new.moduleName.getD ""),
          op ≠ .createSession sessionId start := by
        apply forall_cleanupStale <;> simp
      exact absurd rfl (other _ stale)
    · simp only [mem_cons, Op.createSession.injEq, reduceCtorEq, not_mem_nil, or_false]
        at create
      exact create.2 ▸ checked

/-- A Start enters only by its checks. -/
theorem awaits_step (moved : Transition f act g) {start : Start} (after : g.Awaits start) :
    f.Awaits start ∨ (∃ isAvailable, act = .start start isAvailable) ∧
      start.agentId.getD "" ∉ f.blockedAgents := by
  rcases after with waits | ⟨t, sessionId, creates⟩
  · cases lockStep moved with
    | same locks _ _ => exact .inl (.inl (locks.admitting ▸ waits))
    | @started new isAvailable =>
      rw [receiveStart] at waits
      split at waits
      · exact .inl (.inl waits)
      · rename_i passed
        split at waits
        · exact .inl (.inl waits)
        · rcases mem_append.mp waits with early | late
          · exact .inl (.inl early)
          · cases mem_singleton.mp late
            refine .inr ⟨⟨isAvailable, rfl⟩, ?_⟩
            simp only [isAgentLocked, Bool.or_eq_true, decide_eq_true_eq, not_or] at passed
            exact passed.1
    | opened => exact .inl (.inl (mem_of_mem_erase waits))
    | @locked input object g phase locks =>
      rw [locks.admitting, lockAgent_eq] at waits
      exact .inl (.inl waits)
    | unlocked _ =>
      rw [unlockAgent_eq] at waits
      exact .inl (.inl waits)
    | scanLocked =>
      rw [lockAgent_eq] at waits
      exact .inl (.inl waits)
    | scanUnlocked _ =>
      split at waits
      · rw [unlockAgent_eq] at waits
        exact .inl (.inl waits)
      · exact .inl (.inl waits)
  · have did := todoStep moved t
    generalize g.todo t = ops at did creates
    cases did with
    | same => exact .inl (.inr ⟨t, sessionId, creates⟩)
    | ran _ next => exact .inl (.inr ⟨t, sessionId, by simp [next, creates]⟩)
    | @expanded object agentId reset rest _ next _ =>
      rcases mem_append.mp creates with new | old
      · cases reset <;> simp [unlocking] at new
      · exact .inl (.inr ⟨t, sessionId, by simp [next, old]⟩)
    | scheduled given => exact .inl (.inl (scheduled_create given creates))

end Facade

end GuardSarm.Inventory
