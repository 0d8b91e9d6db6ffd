import GuardSarm.Inventory.SessionMap

/-! What the threads still have to do. A thread that has nothing left is given a
list of operations and runs it from the front; the lists that can be given are few. -/
namespace GuardSarm.Inventory

open List

namespace Facade

/-- The lists of operations a step may give to a thread. -/
inductive Scheduled (f : Facade) : Act → Thread → List Op → Prop
  | flushed {input : Input} {object : Nat} (phase : f.phase = .flush object)
      {callbacks : List Notify} (taken : callbacks <+: f.indexerConnector.notify) :
      Scheduled f (.index input) .indexer (callbacks.flatMap f.notifyOps)
  | invoked {input : Input} (phase : f.phase = .invoke) {callbacks : List Notify}
      (taken : callbacks <+: f.indexerConnector.notify) :
      Scheduled f (.index input) .indexer (callbacks.flatMap f.notifyOps)
  | timer {server : Indexer.Server} {fuel : Nat} {callbacks : List Notify}
      (taken : callbacks <+: f.indexerConnector.notify) :
      Scheduled f (.timer server fuel) .timer (callbacks.flatMap f.notifyOps)
  | caught {input : Input} {object : Nat}
      (phase : f.phase = .flush object ∨ f.phase = .handle object) :
      Scheduled f (.index input) .indexer
        (.unlockIfOwned object (f.context object).agentId true :: f.conclude .error object)
  | zombies {input : Input} {object : Nat} (phase : f.phase = .wait object)
      (free : f.exclusive = none) (idle : f.batches = []) :
      Scheduled f (.index input) .indexer
        (f.cleanupZombies (f.context object).agentId (f.context object).sessionId ++
          [Op.releaseSessions])
  | checked {input : Input} {object : Nat} (phase : f.phase = .handle object)
      (mode : (f.context object).mode = .moduleCheck) :
      Scheduled f (.index input) .indexer
        [.sendEndAck (moduleCheck (f.context object) input.managerChecksum) object,
          .eraseSession (f.context object).sessionId]
  | scanRaised {input : Input} {object : Nat} {pending : Bool}
      (phase : f.phase = .scan object pending)
      (raised : (runsScanner input.scanner (f.context object) f.activeVDFirstScans &&
        input.scanner.raises) = true) :
      Scheduled f (.index input) .indexer (f.conclude .error object)
  | finished {input : Input} {object : Nat} (phase : f.phase = .finish object false) :
      Scheduled f (.index input) .indexer (f.conclude .ok object)
  | timedOut {session object : Nat} (free : f.exclusive = none) (idle : f.batches = [])
      (live : f.find session = some object) :
      Scheduled f (.timeOut session) .sessionTimeout
        [.unlockIfOwned object (f.context object).agentId false, .deleteByPrefix session,
          .eraseSession session, .releaseSessions]
  | admitted {start : Start} {sessionId : UInt64} (checked : start ∈ f.admitting)
      (free : f.exclusive = none) (idle : f.batches = []) :
      Scheduled f (.openSession start sessionId) .admission
        (f.cleanupStale (start.agentId.getD "") (start.moduleName.getD "") ++
          [Op.createSession sessionId.toNat start, Op.releaseSessions])

/-- What a step does to the operations of a thread. -/
inductive TodoStep (f : Facade) (act : Act) (t : Thread) : List Op → Prop
  | same : TodoStep f act t (f.todo t)
  | ran {op : Op} {rest : List Op} (runs : act = .perform t) (next : f.todo t = op :: rest) :
      TodoStep f act t rest
  | expanded {object : Nat} {agentId : String} {reset : Bool} {rest : List Op}
      (runs : act = .perform t) (next : f.todo t = .unlockIfOwned object agentId reset :: rest)
      (owns : (f.context object).ownsAgentLock = true) :
      TodoStep f act t (unlocking object agentId reset ++ rest)
  | scheduled {ops : List Op} (given : Scheduled f act t ops) : TodoStep f act t ops

variable {f g : Facade} {act : Act}

/-- A property of the operations that remove stale sessions. -/
theorem forall_cleanupStale {p : Op → Prop} {agentId : String} (moduleName : String)
    (unlocks : ∀ object, p (.unlockIfOwned object agentId false))
    (removes : ∀ session, p (.deleteByPrefix session)) (erases : ∀ session, p (.eraseSession session)) :
    ∀ op ∈ f.cleanupStale agentId moduleName, p op := by
  intro op member
  obtain ⟨s, _, member⟩ := mem_flatMap.mp member
  simp only [mem_cons, not_mem_nil, or_false] at member
  rcases member with rfl | rfl | rfl
  · exact unlocks s.object
  · exact removes s.id
  · exact erases s.id

/-- A property of the operations that remove zombie sessions. -/
theorem forall_cleanupZombies {p : Op → Prop} (agentId : String) (excludeSessionId : Nat)
    (removes : ∀ session, p (.deleteByPrefix session)) (erases : ∀ session, p (.eraseSession session)) :
    ∀ op ∈ f.cleanupZombies agentId excludeSessionId, p op := by
  intro op member
  obtain ⟨s, _, member⟩ := mem_flatMap.mp member
  simp only [mem_cons, not_mem_nil, or_false] at member
  rcases member with rfl | rfl
  · exact removes s.id
  · exact erases s.id

/-- The operations of a kind that the threads still have to do. -/
def pending (f : Facade) (p : Op → Bool) : Nat :=
  (f.todo .indexer).countP p + (f.todo .timer).countP p + (f.todo .sessionTimeout).countP p +
    (f.todo .admission).countP p

theorem pending_update {t : Thread} {ops : List Op} (todo : g.todo = Function.update f.todo t ops)
    (p : Op → Bool) : g.pending p + (f.todo t).countP p = f.pending p + ops.countP p := by
  cases t <;> simp [pending, todo, Function.update] <;> omega

theorem countP_le_pending (f : Facade) (t : Thread) (p : Op → Bool) :
    (f.todo t).countP p ≤ f.pending p := by
  cases t <;> simp only [pending] <;> omega

/-- The operations of a kind that each callback has once or not at all, where some callbacks are
handed out. -/
theorem countP_handedOut {p : Op → Bool} {q : Notify → Bool}
    (each : ∀ callback, (f.notifyOps callback).countP p = if q callback then 1 else 0)
    {callbacks : List Notify} {c : Indexer.Connector Notify}
    (split : callbacks ++ c.notify = f.indexerConnector.notify) :
    (callbacks.flatMap f.notifyOps).countP p + c.notify.countP q =
      f.indexerConnector.notify.countP q := by
  have counts : (callbacks.flatMap f.notifyOps).countP p = callbacks.countP q := by
    clear split
    induction callbacks with
    | nil => rfl
    | cons callback rest ih =>
      rw [flatMap_cons, countP_append, each, ih, countP_cons]
      omega
  rw [counts, ← split, countP_append]

/-- The operations of the other threads stay as they are. -/
theorem todoStep_update {t : Thread} {ops : List Op} (todo : g.todo = Function.update f.todo t ops)
    (own : TodoStep f act t ops) (u : Thread) : TodoStep f act u (g.todo u) := by
  rw [todo]
  by_cases same : u = t
  · subst same
    simpa using own
  · rw [Function.update_of_ne same]
    exact .same

theorem handle_frame (f : Facade) (session : Nat) (call : Call) :
    (f.handle session call).todo = f.todo ∧ (f.handle session call).phase = f.phase ∧
      (f.handle session call).indexerConnector = f.indexerConnector := by
  rw [handle]
  split <;> exact ⟨rfl, rfl, rfl⟩

theorem perform_frame (f : Facade) (t : Thread) (rest : List Op) (op : Op) :
    (f.perform t rest op).phase = f.phase ∧
      (f.perform t rest op).indexerConnector = f.indexerConnector ∧
      ((∀ object agentId reset, op ≠ .unlockIfOwned object agentId reset) →
        (f.perform t rest op).todo = Function.update f.todo t rest) := by
  cases op with
  | unlockAgent o agentId =>
    rw [perform, unlockAgent_eq]
    exact ⟨rfl, rfl, fun _ => rfl⟩
  | eraseSession session =>
    rw [perform, eraseSession_frame]
    exact ⟨rfl, rfl, fun _ => rfl⟩
  | createSession sessionId start =>
    rw [perform, createSession_frame]
    exact ⟨rfl, rfl, fun _ => rfl⟩
  | unlockIfOwned object agentId reset =>
    exact ⟨rfl, rfl, fun plain => absurd rfl (plain object agentId reset)⟩
  | _ => exact ⟨rfl, rfl, fun _ => rfl⟩

theorem todoStep (moved : Transition f act g) (t : Thread) : TodoStep f act t (g.todo t) := by
  cases moved with
  | message =>
    rw [(handle_frame ..).1]
    exact .same
  | @batchItem batch value =>
    cases value with
    | none => exact .same
    | some data =>
      rw [handleBatchItem, (handle_frame ..).1]
      exact .same
  | start =>
    rw [receiveStart_frame]
    exact .same
  | @perform u op rest next may =>
    cases op with
    | unlockIfOwned object agentId reset =>
      refine todoStep_update rfl ?_ t
      split
      · rename_i owns
        exact .expanded rfl next owns
      · exact .ran rfl next
    | _ => exact todoStep_update ((perform_frame ..).2.2 (by simp)) (.ran rfl next) t
  | flushed phase _ c split => exact todoStep_update rfl (.scheduled (.flushed phase ⟨_, split⟩)) t
  | flushRaised phase => exact todoStep_update rfl (.scheduled (.caught (.inl phase))) t
  | zombies phase _ free idle =>
    exact todoStep_update rfl (.scheduled (.zombies phase free idle)) t
  | updateRaised phase
  | indexRaised phase => exact todoStep_update rfl (.scheduled (.caught (.inr phase))) t
  | checked phase _ mode => exact todoStep_update rfl (.scheduled (.checked phase mode)) t
  | scanned phase =>
    rw [scanSession]
    split
    · rename_i raised
      exact todoStep_update rfl (.scheduled (.scanRaised phase raised)) t
    · exact .same
  | @finished input object pending phase =>
    cases pending with
    | true => exact .same
    | false => exact todoStep_update rfl (.scheduled (.finished phase)) t
  | invoked phase _ c split => exact todoStep_update rfl (.scheduled (.invoked phase ⟨_, split⟩)) t
  | timer _ _ c split => exact todoStep_update rfl (.scheduled (.timer ⟨_, split⟩)) t
  | timeOut free idle live => exact todoStep_update rfl (.scheduled (.timedOut free idle live)) t
  | openSession checked free idle =>
    exact todoStep_update rfl (.scheduled (.admitted checked free idle)) t
  | locked | lockScan | stop =>
    rw [lockAgent_eq]
    exact .same
  | unlockScan =>
    split
    · rw [unlockAgent_eq]
      exact .same
    · exact .same
  | dataBatch | batchEnd | deleteAgent | passed | taken | owned | waited | updated | indexed
  | unlocked => exact .same

/-- What a step does to the callbacks that wait for the indexer. -/
inductive NotifyStep (f : Facade) (act : Act) (g : Facade) : Prop
  | same (notify : g.indexerConnector.notify = f.indexerConnector.notify)
  | handedOut {callbacks : List Notify}
      (split : callbacks ++ g.indexerConnector.notify = f.indexerConnector.notify)
  | dropped {object : Nat} (phase : f.phase = .handle object)
      (locks : (f.context object).mode.locksAgent = true) (notify : g.indexerConnector.notify = [])
  | updated {object : Nat} (phase : f.phase = .handle object)
      (locks : (f.context object).mode.locksAgent = true)
      (notify : g.indexerConnector.notify = f.indexerConnector.notify ++ [.updated object])
  | indexed {object : Nat} (phase : f.phase = .finish object true)
      (notify : g.indexerConnector.notify = f.indexerConnector.notify ++ [.indexed object])

theorem notifyStep (moved : Transition f act g) : NotifyStep f act g := by
  cases moved with
  | message => exact .same (by rw [(handle_frame ..).2.2])
  | @batchItem batch value =>
    cases value with
    | none => exact .same rfl
    | some data => exact .same (by rw [handleBatchItem, (handle_frame ..).2.2])
  | start =>
    rw [receiveStart_frame]
    exact .same rfl
  | perform => exact .same (by rw [(perform_frame ..).2.1])
  | deleteAgent _ c same => exact .same same
  | flushed _ _ c split | invoked _ _ c split | timer _ _ c split => exact .handedOut split
  | flushRaised _ _ c same | indexed _ _ _ _ c same | indexRaised _ _ _ _ c same => exact .same same
  | updated phase _ locks c left =>
    rcases left with registered | cleared
    · exact .updated phase locks registered
    · exact .dropped phase locks cleared
  | updateRaised phase _ locks c left =>
    rcases left with cleared | ⟨registered, _⟩
    · exact .dropped phase locks cleared
    · exact .updated phase locks registered
  | scanned =>
    rw [scanSession]
    split <;> exact .same rfl
  | @finished input object pending phase =>
    cases pending with
    | true => exact .indexed phase rfl
    | false => exact .same rfl
  | locked | lockScan | stop =>
    rw [lockAgent_eq]
    exact .same rfl
  | unlockScan =>
    split
    · rw [unlockAgent_eq]
      exact .same rfl
    · exact .same rfl
  | dataBatch | batchEnd | openSession | passed | taken | owned | waited | zombies | checked
  | unlocked | timeOut => exact .same rfl

end Facade

end GuardSarm.Inventory
