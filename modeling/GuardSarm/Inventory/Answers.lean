import GuardSarm.Inventory.Schedule

/-! How often a session is answered. Each session object that was queued is owed one
answer, and the debt is passed on: from the queue to the indexer thread, from there to
a callback or to the operations of a thread, and from there to the agent. Two places
make a second debt of it: a scan that raises, and an update by query that raises before
the indexer has answered. -/
namespace GuardSarm.Inventory

open List

/-- The session object the indexer thread has not yet answered or passed on. -/
def Phase.object : Phase → Option Nat
  | .lock object | .own object | .flush object | .wait object | .handle object
  | .scan object _ | .finish object _ => some object
  | .idle | .unlock | .invoke => none

def Phase.owes (phase : Phase) (object : Nat) : Nat :=
  match phase.object with
  | some held => if held = object then 1 else 0
  | none => 0

def Notify.object : Notify → Nat
  | .updated object | .indexed object => object

/-- The operation answers the session object for good. -/
def Op.answers (object : Nat) : Op → Bool
  | .sendEndAck status o => status.isTerminal && o == object
  | _ => false

namespace Facade

/-- The answers for good that were sent for a session object, in order. -/
def terminalAnswers (f : Facade) (object : Nat) : List Status :=
  f.responses.filterMap fun s => if s.object = some object then s.answer.terminal else none

/-- The answers owed to a session object and those it was given. -/
def due (f : Facade) (object : Nat) : Nat :=
  f.indexerQueue.countP (·.context == object) + f.phase.owes object + f.pending (Op.answers object) +
    f.indexerConnector.notify.countP (·.object == object) + (f.terminalAnswers object).length

def enqueued (f : Facade) (object : Nat) : Bool := (f.objects object).endEnqueued

variable {f g h : Facade} {act : Act} {object : Nat}

theorem due_setTodo (f : Facade) (t : Thread) (ops : List Op) (object : Nat) :
    (f.setTodo t ops).due object + (f.todo t).countP (Op.answers object) =
      f.due object + ops.countP (Op.answers object) := by
  have counts := pending_update (g := f.setTodo t ops) rfl (Op.answers object)
  simp only [due, terminalAnswers]
  simp only [setTodo] at counts ⊢
  omega

theorem due_send (f : Facade) (about : Option Nat) (answers : List Answer) (object : Nat) :
    (f.send about answers).due object = f.due object +
      if about = some object then (answers.filterMap Answer.terminal).length else 0 := by
  simp only [due, send, terminalAnswers, pending, filterMap_append,
    length_append, filterMap_map, Function.comp_def]
  split <;> simp [Nat.add_assoc]

theorem due_handedOut {callbacks : List Notify} {c : Indexer.Connector Notify}
    (split : callbacks ++ c.notify = f.indexerConnector.notify) (object : Nat) :
    (callbacks.flatMap f.notifyOps).countP (Op.answers object) +
      c.notify.countP (·.object == object) =
        f.indexerConnector.notify.countP (·.object == object) := by
  refine countP_handedOut (fun callback => ?_) split
  cases callback <;> simp [notifyOps, Op.answers, Notify.object, Status.isTerminal, countP_cons]

theorem conclude_answers (f : Facade) {status : Status} (terminal : status.isTerminal = true)
    (object other : Nat) :
    (f.conclude status other).countP (Op.answers object) = if other = object then 1 else 0 := by
  simp [conclude, Op.answers, terminal, countP_cons]

theorem unlocking_answers (object other : Nat) (agentId : String) (reset : Bool) :
    (unlocking other agentId reset).countP (Op.answers object) = 0 := by
  cases reset <;> simp [unlocking, Op.answers]

theorem cleanupStale_answers (f : Facade) (agentId moduleName : String) (object : Nat) :
    (f.cleanupStale agentId moduleName).countP (Op.answers object) = 0 := by
  apply countP_eq_zero.mpr
  apply forall_cleanupStale <;> simp [Op.answers]

theorem cleanupZombies_answers (f : Facade) (agentId : String) (excludeSessionId object : Nat) :
    (f.cleanupZombies agentId excludeSessionId).countP (Op.answers object) = 0 := by
  apply countP_eq_zero.mpr
  apply forall_cleanupZombies <;> simp [Op.answers]

/-- The step may answer the session object a second time: the scan raises, or an update finds no
server. -/
def RepeatsAnswer (f : Facade) (object : Nat) : Act → Prop
  | .index input =>
    (∃ pending, f.phase = .scan object pending ∧
      (runsScanner input.scanner (f.context object) f.activeVDFirstScans &&
        input.scanner.raises) = true) ∨
    (f.phase = .handle object ∧ (f.context object).mode.locksAgent = true ∧
      ∃ events, input.server.available events = false)
  | _ => False

/-- What a step does to the debt of a session object. -/
inductive DueStep (f : Facade) (act : Act) (object : Nat) (g : Facade) : Prop
  | kept (same : g.enqueued object = f.enqueued object) (le : g.due object ≤ f.due object)
  | pushed (live : ∃ session, f.find session = some object)
      (before : f.enqueued object = false) (after : g.enqueued object = true)
      (le : g.due object ≤ f.due object + 1)
  | repeated (same : g.enqueued object = f.enqueued object) (again : f.RepeatsAnswer object act)
      (le : g.due object ≤ f.due object + 1)

theorem DueStep.handle (f : Facade) (session : Nat) (call : Call) (object : Nat) :
    DueStep f act object (f.handle session call) := by
  rw [Facade.handle]
  split
  · exact .kept rfl le_rfl
  · rename_i own found
    have handled := after_handled ⟨f.objects own, f.dataStore, [], []⟩ call
    generalize SessionState.after ⟨f.objects own, f.dataStore, [], []⟩ call = s at handled
    obtain ⟨more, responses, silent⟩ := handled.answers
    have none_ : more.filterMap Answer.terminal = [] := by
      simpa [filterMap_eq_nil_iff] using silent
    have answers : ∀ g : Facade, g.responses = f.responses ++ s.responses.map (⟨some own, ·⟩) →
        g.terminalAnswers object = f.terminalAnswers object := by
      intro g same
      simp only [terminalAnswers, same, responses, nil_append, filterMap_append,
        filterMap_map, Function.comp_def]
      split <;> simp [none_]
    by_cases same : own = object
    · subst same
      rcases handled.pushes with ⟨queue, enqueued⟩ | ⟨before, after, queue⟩
      · refine .kept ?_ ?_
        · simpa [Facade.enqueued] using enqueued
        · simp only [due, answers, countP_append, queue, pending]
          simp
      · refine .pushed ⟨session, found⟩ before ?_ ?_
        · simpa [Facade.enqueued] using after
        · simp only [due, answers, countP_append, queue, pending]
          simp
          omega
    · have pushes : (s.indexerQueue.map fun r => { r with context := own }).countP
          (·.context == object) = 0 := by simp [countP_map, same, Function.comp_def]
      refine .kept ?_ ?_
      · simp [Facade.enqueued, Function.update_of_ne (Ne.symm same)]
      · simp only [due, answers, countP_append, pushes, pending]
        simp

variable {t : Thread} {rest : List Op}

/-- An operation that was done is no longer to be done. -/
theorem due_performed {h : Facade} {op : Op} (next : f.todo t = op :: rest) (todo : h.todo = f.todo)
    (due : h.due object = f.due object + if op.answers object then 1 else 0) :
    (h.setTodo t rest).due object = f.due object := by
  have balance := h.due_setTodo t rest object
  rw [todo, next, countP_cons, due] at balance
  omega

theorem DueStep.create (fresh : f.enqueued f.allocated = false) {sessionId : Nat}
    {start : Start} (next : f.todo t = .createSession sessionId start :: rest) (object : Nat) :
    DueStep f act object ((f.createSession sessionId start).setTodo t rest) := by
  have made := f.createSession_creation sessionId start
  generalize f.createSession sessionId start = g at made ⊢
  cases made with
  | refused answers _ same =>
    refine .kept ?_ (due_performed next ?_ ?_).le
    · rw [same]
      rfl
    · rw [same]
    · rw [same]
      exact (f.due_send none answers object).trans (by simp [Op.answers])
  | opened =>
    refine .kept ?_ (due_performed next ?_ ?_).le
    · by_cases new : object = f.allocated
      · rw [new, fresh]
        simp [setTodo, send, addSession, enqueued, AgentSession.ofStart]
      · simp [setTodo, send, addSession, enqueued, Function.update_of_ne new]
    · rfl
    · exact (due_send _ _ _ _).trans (by simp [Op.answers, Answer.terminal, addSession, due,
        pending, terminalAnswers])

theorem DueStep.perform (fresh : f.enqueued f.allocated = false) {op : Op}
    (next : f.todo t = op :: rest) (object : Nat) : DueStep f act object (f.perform t rest op) := by
  cases op with
  | disown o =>
    refine .kept ?_ (due_performed next rfl rfl).le
    by_cases same : object = o
    · simp [Facade.perform, setTodo, setOwnsAgentLock, enqueued, same]
    · simp [Facade.perform, setTodo, setOwnsAgentLock, enqueued, Function.update_of_ne same]
  | unlockAgent o agentId =>
    rw [Facade.perform, unlockAgent_eq]
    exact .kept rfl (due_performed next rfl rfl).le
  | unlockIfOwned o agentId reset =>
    refine .kept rfl ?_
    have balance := f.due_setTodo t (if (f.context o).ownsAgentLock then
      unlocking o agentId reset ++ rest else rest) object
    have count : (if (f.context o).ownsAgentLock then unlocking o agentId reset ++ rest
        else rest).countP (Op.answers object) = rest.countP (Op.answers object) := by
      split
      · rw [countP_append, unlocking_answers, Nat.zero_add]
      · rfl
    rw [next, countP_cons, count] at balance
    simp only [Facade.perform]
    omega
  | sendEndAck status o =>
    refine .kept rfl (due_performed next ?_ ?_ : ((f.sendEndAck status o).setTodo t rest).due _ =
      _).le
    · rfl
    rw [sendEndAck, due_send]
    cases status <;> simp [Op.answers, Answer.terminal, Status.isTerminal]
  | deleteByPrefix session => exact .kept rfl (due_performed next rfl rfl).le
  | eraseSession session =>
    rw [Facade.perform, eraseSession_frame]
    exact .kept rfl (due_performed next rfl rfl).le
  | createSession sessionId start => exact .create fresh next object
  | releaseSessions => exact .kept rfl (due_performed next rfl rfl).le

/-- A step that only changes the phase, the callbacks and the operations of a thread adds to the
debt at most what it adds to these. -/
theorem due_scheduled {ops : List Op} (more : Nat)
    (todo : g.todo = Function.update f.todo t ops) (queue : g.indexerQueue = f.indexerQueue)
    (responses : g.responses = f.responses)
    (paid : g.phase.owes object + ops.countP (Op.answers object) +
        g.indexerConnector.notify.countP (·.object == object) ≤
      f.phase.owes object + (f.todo t).countP (Op.answers object) +
        f.indexerConnector.notify.countP (·.object == object) + more) :
    g.due object ≤ f.due object + more := by
  have counts := pending_update todo (Op.answers object)
  simp only [due, queue, terminalAnswers, responses]
  omega

/-- As `due_scheduled`, where no thread is given operations. -/
theorem due_moved (todo : g.todo = f.todo) (queue : g.indexerQueue = f.indexerQueue)
    (responses : g.responses = f.responses)
    (paid : g.phase.owes object + g.indexerConnector.notify.countP (·.object == object) ≤
      f.phase.owes object + f.indexerConnector.notify.countP (·.object == object)) :
    g.due object ≤ f.due object := by
  simp only [due, pending, todo, queue, terminalAnswers, responses]
  omega

/-- An exception passes the debt of the thread on to the operations of the catch block. -/
theorem due_caught {own : Nat} (held : f.phase.object = some own) (c : Indexer.Connector Notify)
    (more : Nat) (le : c.notify.countP (·.object == object) ≤
      f.indexerConnector.notify.countP (·.object == object) + more) :
    ({ f with indexerConnector := c }.caught own).due object ≤ f.due object + more := by
  refine due_scheduled more rfl rfl rfl ?_
  have owes : f.phase.owes object = if own = object then 1 else 0 := by simp only [Phase.owes, held]
  rw [countP_cons, conclude_answers _ rfl, owes]
  simp only [caught, setTodo, Phase.owes, Phase.object, Op.answers, Bool.false_eq_true, if_false]
  omega

theorem moduleCheck_terminal (context : Context) (managerChecksum : Nat → Option String) :
    (moduleCheck context managerChecksum).isTerminal = true := by
  have compared : ∀ left attempt,
      (compareChecksums context.checksum managerChecksum attempt left).isTerminal = true := by
    intro left
    induction left with
    | zero => exact fun _ => rfl
    | succ left ih =>
      intro attempt
      rw [compareChecksums]
      split
      · rfl
      · split
        · rfl
        · exact ih _
  rw [moduleCheck]
  split
  · rfl
  · exact compared _ _

/-- Every step keeps the debt of a session object, queues the object, or repeats an answer. -/
theorem dueStep (fresh : f.enqueued f.allocated = false) (moved : Transition f act g)
    (object : Nat) : DueStep f act object g := by
  cases moved with
  | message => exact .handle f _ _ object
  | @batchItem batch value values found =>
    cases value with
    | none => exact .kept rfl le_rfl
    | some data =>
      have handled : DueStep { f with batches := f.batches.set batch values } (.batchItem batch)
        object _ := .handle _ data.session (.handleData (some data) (.dataValue (reserialize data))) _
      cases handled with
      | kept same le => exact .kept same le
      | pushed live before after le => exact .pushed live before after le
      | repeated same again le => exact .repeated same again le
  | start =>
    rw [receiveStart]
    split
    · exact .kept rfl (due_send _ _ _ _).le
    · split
      · exact .kept rfl (due_send _ _ _ _).le
      · exact .kept rfl le_rfl
  | openSession =>
    refine .kept rfl (due_scheduled 0 rfl rfl rfl ?_)
    rw [countP_append, cleanupStale_answers]
    simp [Op.answers, openSession, setTodo]
  | deleteAgent _ c same =>
    refine .kept rfl (due_moved rfl rfl rfl ?_)
    simp [same]
  | perform next => exact .perform fresh next object
  | passed _ _ queue _ =>
    refine .kept rfl ?_
    simp only [due, pending, terminalAnswers, queue, countP_cons]
    omega
  | @taken _ response rest phase _ queue _ _ =>
    refine .kept rfl ?_
    have idle : f.phase.owes object = 0 := by rw [phase]; rfl
    have held : (if (f.context response.context).mode.locksAgent then Phase.lock response.context
        else .handle response.context).owes object =
          if response.context == object then 1 else 0 := by
      split <;> simp [Phase.owes, Phase.object]
    simp only [due, pending, terminalAnswers, queue, countP_cons, idle, held]
    omega
  | locked phase =>
    rw [lockAgent_eq]
    refine .kept rfl (due_moved rfl rfl rfl ?_)
    rw [phase]
    rfl
  | @owned _ own phase _ =>
    refine .kept ?_ (due_moved rfl rfl rfl ?_)
    · by_cases same : object = own
      · simp [setOwnsAgentLock, enqueued, same]
      · simp [setOwnsAgentLock, enqueued, Function.update_of_ne same]
    · rw [phase]
      rfl
  | flushed phase done c split | invoked phase done c split =>
    refine .kept rfl (due_scheduled 0 rfl rfl rfl ?_)
    have parts := due_handedOut split object
    rw [phase]
    simp only [setTodo, Phase.owes, Phase.object]
    omega
  | flushRaised phase _ c same | indexRaised phase _ _ _ c same =>
    exact .kept rfl (due_caught (by rw [phase]; rfl) c 0 (by simp [same]))
  | waited phase | unlocked phase =>
    refine .kept rfl (due_moved rfl rfl rfl ?_)
    rw [phase]
    rfl
  | zombies phase =>
    refine .kept rfl (due_scheduled 0 rfl rfl rfl ?_)
    rw [countP_append, cleanupZombies_answers, phase]
    simp [Op.answers, setTodo, Phase.owes, Phase.object]
  | updated phase done locks c left =>
    refine .kept rfl (due_moved rfl rfl rfl ?_)
    rw [phase]
    rcases left with kept | dropped
    · simp only [kept, Phase.owes, Phase.object, countP_append, countP_singleton,
        Notify.object, beq_iff_eq]
      omega
    · simp [dropped, Phase.owes, Phase.object]
  | @updateRaised input own phase _ locks c left =>
    have held : f.phase.object = some own := by rw [phase]; rfl
    rcases left with dropped | ⟨kept, unavailable⟩
    · exact .kept rfl (due_caught held c 0 (by simp [dropped]))
    · by_cases same : own = object
      · subst same
        refine .repeated rfl (.inr ⟨phase, locks, unavailable⟩) (due_caught held c 1 ?_)
        rw [kept, countP_append]
        simp [Notify.object]
      · refine .kept rfl (due_caught held c 0 ?_)
        rw [kept, countP_append]
        simp [Notify.object, same]
  | checked phase =>
    refine .kept rfl (due_scheduled 0 rfl rfl rfl ?_)
    rw [phase]
    simp [Op.answers, moduleCheck_terminal, setTodo, Phase.owes, Phase.object, countP_cons]
  | indexed phase _ _ _ c same =>
    refine .kept rfl (due_moved rfl rfl rfl ?_)
    rw [phase, same]
    rfl
  | @scanned input own pending phase _ =>
    rw [scanSession]
    split
    · rename_i raised
      by_cases same : own = object
      · subst same
        refine .repeated rfl (.inl ⟨pending, phase, raised⟩) (due_scheduled 1 rfl rfl rfl ?_)
        rw [conclude_answers f rfl, phase]
        simp only [setTodo, Phase.owes, Phase.object, if_true]
        omega
      · refine .kept rfl (due_scheduled 0 rfl rfl rfl ?_)
        rw [conclude_answers f rfl, if_neg same, phase]
        simp only [setTodo, Phase.owes, Phase.object]
        omega
    · refine .kept rfl (due_moved rfl rfl rfl ?_)
      rw [phase]
      rfl
  | finished phase =>
    rw [finishSession]
    split
    · refine .kept rfl (due_moved rfl rfl rfl ?_)
      rw [phase]
      simp only [Phase.owes, Phase.object, countP_append, countP_singleton,
        Notify.object, beq_iff_eq]
      omega
    · refine .kept rfl (due_scheduled 0 rfl rfl rfl ?_)
      rw [conclude_answers f rfl, phase]
      simp only [setTodo, Phase.owes, Phase.object]
      omega
  | timer done free c split =>
    refine .kept rfl (due_scheduled 0 rfl rfl rfl ?_)
    have parts := due_handedOut split object
    simp only [setTodo]
    omega
  | timeOut =>
    refine .kept rfl (due_scheduled 0 rfl rfl rfl ?_)
    simp [Op.answers, timeOut, setTodo]
  | lockScan | stop =>
    rw [lockAgent_eq]
    exact .kept rfl le_rfl
  | unlockScan =>
    split
    · rw [unlockAgent_eq]
      exact .kept rfl le_rfl
    · exact .kept rfl le_rfl
  | dataBatch | batchEnd => exact .kept rfl le_rfl

/-- A session object that was not queued is owed nothing and was given no answer. -/
structure Traced (f : Facade) : Prop extends Mapped f where
  unbuilt : ∀ object, f.allocated ≤ object → f.enqueued object = false
  unqueued : ∀ object, f.enqueued object = false → f.due object = 0

theorem repeated_due (again : f.RepeatsAnswer object act) : 0 < f.due object := by
  have held : f.phase.owes object = 1 := by
    cases act with
    | index input =>
      rcases again with ⟨pending, phase, _⟩ | ⟨phase, _⟩ <;> simp [phase, Phase.owes, Phase.object]
    | _ => cases again
  rw [due, held]
  omega

theorem Traced.step (traced : Traced f) (moved : Transition f act g) : Traced g := by
  have did := dueStep (traced.unbuilt _ le_rfl) moved
  have grows := allocated_le moved
  refine ⟨traced.toMapped.step moved, ?_, ?_⟩
  · intro object unbuilt
    have early := traced.unbuilt object (grows.trans unbuilt)
    cases did object with
    | kept same _ => exact same.trans early
    | pushed live _ _ _ =>
      obtain ⟨session, found⟩ := live
      have built := (traced.find found).1
      omega
    | repeated same _ _ => exact same.trans early
  · intro object unqueued
    cases did object with
    | kept same le =>
      rw [same] at unqueued
      have none_ := traced.unqueued object unqueued
      omega
    | pushed _ _ after _ =>
      rw [after] at unqueued
      cases unqueued
    | repeated same again _ =>
      rw [same] at unqueued
      have none_ := traced.unqueued object unqueued
      have some_ := repeated_due again
      omega

theorem Traced.initial (maxSessions quota : Nat) : Traced (initial maxSessions quota) :=
  ⟨.initial maxSessions quota, fun _ _ => rfl, fun _ _ => rfl⟩

theorem Traced.due_built (traced : Traced f) (owed : 0 < f.due object) : object < f.allocated := by
  by_contra unbuilt
  have none_ := traced.unqueued object (traced.unbuilt object (not_lt.mp unbuilt))
  omega

theorem Traced.held_built (traced : Traced f) (held : f.phase.object = some object) :
    object < f.allocated := by
  apply traced.due_built
  simp [due, Phase.owes, held]

theorem Traced.queued_built (traced : Traced f) {response : Response}
    (member : response ∈ f.indexerQueue) : response.context < f.allocated := by
  apply traced.due_built
  have counted : 0 < f.indexerQueue.countP (·.context == response.context) :=
    countP_pos_iff.mpr ⟨response, member, by simp⟩
  rw [due]
  omega

theorem Traced.notified_built (traced : Traced f) {callback : Notify}
    (member : callback ∈ f.indexerConnector.notify) : callback.object < f.allocated := by
  apply traced.due_built
  have counted : 0 < f.indexerConnector.notify.countP (·.object == callback.object) :=
    countP_pos_iff.mpr ⟨callback, member, by simp⟩
  rw [due]
  omega

/-- A callback of an update is registered for a session that takes the agent's lock. -/
structure Registered (f : Facade) : Prop extends Traced f where
  updates : ∀ object, .updated object ∈ f.indexerConnector.notify →
    (f.context object).mode.locksAgent = true

theorem Registered.updates_step (registered : Registered f) (moved : Transition f act g) (object : Nat)
    (member : .updated object ∈ g.indexerConnector.notify) :
    (g.context object).mode.locksAgent = true := by
  have kept : .updated object ∈ f.indexerConnector.notify →
      (g.context object).mode.locksAgent = true := by
    intro early
    have same := congrArg Identity.mode (identity_step moved (registered.notified_built early))
    exact (congrArg Mode.locksAgent same).trans (registered.updates object early)
  cases notifyStep moved with
  | same notify => exact kept (notify ▸ member)
  | handedOut split => exact kept (split ▸ mem_append_right _ member)
  | dropped _ _ notify => simp [notify] at member
  | @updated own phase locks notify =>
    rw [notify, mem_append, mem_singleton] at member
    rcases member with early | same
    · exact kept early
    · cases same
      have built : object < f.allocated := registered.held_built (by rw [phase]; rfl)
      exact (congrArg (Mode.locksAgent ∘ Identity.mode) (identity_step moved built)).trans locks
  | indexed _ notify =>
    rw [notify, mem_append, mem_singleton] at member
    rcases member with early | same
    · exact kept early
    · cases same

theorem Registered.step (registered : Registered f) (moved : Transition f act g) : Registered g :=
  ⟨registered.toTraced.step moved, registered.updates_step moved⟩

theorem Registered.initial (maxSessions quota : Nat) : Registered (initial maxSessions quota) :=
  ⟨.initial maxSessions quota, fun _ member => by cases member⟩

/-- The step gives no session object a second answer. -/
def AnswersOnce (f : Facade) (act : Act) : Prop := ∀ object, ¬f.RepeatsAnswer object act

/-- A step that repeats no answer keeps the debt of every object at one answer. -/
theorem due_le_one (traced : Traced f) (once : f.AnswersOnce act)
    (one : ∀ object, f.due object ≤ 1) (moved : Transition f act g) (object : Nat) :
    g.due object ≤ 1 := by
  cases dueStep (traced.unbuilt _ le_rfl) moved object with
  | kept _ le => exact le.trans (one object)
  | pushed _ before _ le =>
    have none_ := traced.unqueued object before
    omega
  | repeated _ again _ => exact absurd again (once object)

/-- A check of `AnswersOnce` that computes: no update is made, and no scan raises. -/
def answersOnce (f : Facade) : Act → Bool
  | .index input =>
    match f.phase with
    | .scan object _ =>
      !(runsScanner input.scanner (f.context object) f.activeVDFirstScans && input.scanner.raises)
    | .handle object => !(f.context object).mode.locksAgent
    | _ => true
  | _ => true

theorem answersOnce_sound (met : f.answersOnce act = true) : f.AnswersOnce act := by
  intro object again
  cases act with
  | index input =>
    rcases again with ⟨pending, phase, raised⟩ | ⟨phase, locks, _⟩
    · simp [answersOnce, phase, raised] at met
    · simp [answersOnce, phase, locks] at met
  | _ => cases again

/-- A session is opened, sent its only value and ended. -/
def sampleSession (start : Start) : List Act :=
  opening start 12 ++ [.message (.dataValue (sampleData 12)), .message (.endSession 12)]

/-- The scan raises after the values of the session were handed over. -/
def raisingScan : List Act :=
  sampleSession { sampleStart "001" with option := .vdSync } ++
    List.replicate 3 (.index .raising) ++ List.replicate 3 (.perform .indexer) ++
    List.replicate 3 (.index .quiet) ++ [.timer .accepting 3, .perform .timer]

/-- An update by query finds no server after its callback was registered, and the connector's
thread flushes something else. -/
def raisingUpdate : List Act :=
  opening { sampleStart "001" with mode := .metadataDelta, size := 0 } 12 ++
    [.message (.endSession 12)] ++ List.replicate 5 (.index .quiet) ++ [.index .unavailable] ++
    List.replicate 6 (.perform .indexer) ++ [.deleteAgent "002" true, .timer .accepting 3] ++
    List.replicate 3 (.perform .timer)

end Facade

end GuardSarm.Inventory
