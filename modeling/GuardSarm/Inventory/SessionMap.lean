import GuardSarm.Inventory.Transition

/-! The session map: which steps of the manager change it, and how. Only two
operations do, one that erases a session and one that creates a session; what a
session was opened with never changes. -/
namespace GuardSarm.Inventory

namespace Facade

variable {f g h : Facade}

theorem lockAgent_eq (f : Facade) (agentId : String) :
    (f.lockAgent agentId).2 =
      { f with
        blockedAgents := (f.lockAgent agentId).2.blockedAgents
        allAgentsLocked := (f.lockAgent agentId).2.allAgentsLocked } := by
  rw [lockAgent]
  split <;> rfl

theorem unlockAgent_eq (f : Facade) (agentId : String) :
    f.unlockAgent agentId =
      { f with
        blockedAgents := (f.unlockAgent agentId).blockedAgents
        allAgentsLocked := (f.unlockAgent agentId).allAgentsLocked } := by
  rw [unlockAgent]
  split <;> rfl

/-- The session map, its limits and what never changes of a session are the same. -/
structure SameTable (f g : Facade) : Prop where
  maxSessions : g.maxSessions = f.maxSessions
  quota : g.dataValueQuotaRemaining = f.dataValueQuotaRemaining
  sessions : g.agentSessions = f.agentSessions
  allocated : g.allocated = f.allocated
  identity : ∀ object, (g.objects object).identity = (f.objects object).identity

namespace SameTable

theorem refl (f : Facade) : SameTable f f := ⟨rfl, rfl, rfl, rfl, fun _ => rfl⟩

theorem trans (first : SameTable f g) (second : SameTable g h) : SameTable f h :=
  ⟨second.maxSessions.trans first.maxSessions, second.quota.trans first.quota,
    second.sessions.trans first.sessions, second.allocated.trans first.allocated,
    fun object => (second.identity object).trans (first.identity object)⟩

theorem handle (f : Facade) (session : Nat) (call : Call) :
    SameTable f (f.handle session call) := by
  rw [Facade.handle]
  split
  · exact refl f
  · rename_i object found
    refine ⟨rfl, rfl, rfl, rfl, ?_⟩
    intro other
    by_cases same : other = object
    · subst same
      have handled := after_handled ⟨f.objects other, f.dataStore, [], []⟩ call
      simpa using handled.identity
    · simp [Function.update_of_ne same]

theorem handleBatchItem (f : Facade) (value : Option DataValue) :
    SameTable f (f.handleBatchItem value) := by
  cases value with
  | none => exact refl f
  | some data => exact handle f _ _

theorem lockAgent (f : Facade) (agentId : String) : SameTable f (f.lockAgent agentId).2 := by
  rw [lockAgent_eq]
  exact ⟨rfl, rfl, rfl, rfl, fun _ => rfl⟩

theorem unlockAgent (f : Facade) (agentId : String) : SameTable f (f.unlockAgent agentId) := by
  rw [unlockAgent_eq]
  exact ⟨rfl, rfl, rfl, rfl, fun _ => rfl⟩

theorem setOwnsAgentLock (f : Facade) (object : Nat) (owns : Bool) :
    SameTable f (f.setOwnsAgentLock object owns) := by
  refine ⟨rfl, rfl, rfl, rfl, ?_⟩
  intro other
  by_cases same : other = object
  · subst same
    simp [Facade.setOwnsAgentLock, AgentSession.identity, Facade.context]
  · simp [Facade.setOwnsAgentLock, Function.update_of_ne same]

theorem receiveStart (f : Facade) (start : Start) (isAvailable : Bool) :
    SameTable f (f.receiveStart start isAvailable) := by
  rw [Facade.receiveStart]
  split
  · exact ⟨rfl, rfl, rfl, rfl, fun _ => rfl⟩
  · split <;> exact ⟨rfl, rfl, rfl, rfl, fun _ => rfl⟩

end SameTable

def next (f : Facade) : Act → Option Op
  | .perform t => (f.todo t).head?
  | _ => none

inductive TableStep (f : Facade) : Act → Facade → Prop
  | same {act : Act} {g : Facade} (table : SameTable f g)
      (kept : ∀ session, f.next act ≠ some (.eraseSession session))
      (none_ : ∀ sessionId start, f.next act ≠ some (.createSession sessionId start)) :
      TableStep f act g
  | erased {t : Thread} {session : Nat} {rest : List Op}
      (next : f.todo t = .eraseSession session :: rest) :
      TableStep f (.perform t) ((f.eraseSession session).setTodo t rest)
  | created {t : Thread} {sessionId : Nat} {start : Start} {rest : List Op}
      (next : f.todo t = .createSession sessionId start :: rest) :
      TableStep f (.perform t) ((f.createSession sessionId start).setTodo t rest)

variable {act : Act}

/-- Only an operation that erases or creates a session changes the map. -/
theorem tableStep (moved : Transition f act g) : TableStep f act g := by
  cases moved with
  | message => exact .same (.handle f _ _) nofun nofun
  | batchItem =>
    refine .same (SameTable.trans ?_ (.handleBatchItem _ _)) nofun nofun
    exact ⟨rfl, rfl, rfl, rfl, fun _ => rfl⟩
  | start => exact .same (.receiveStart f _ _) nofun nofun
  | @perform t op rest next may =>
    cases op with
    | disown object =>
      refine .same (.trans (.setOwnsAgentLock f object false) ?_) ?_ ?_
      · exact ⟨rfl, rfl, rfl, rfl, fun _ => rfl⟩
      · simp [Facade.next, next]
      · simp [Facade.next, next]
    | unlockAgent object agentId =>
      refine .same (.trans (.unlockAgent f agentId) ?_) ?_ ?_
      · exact ⟨rfl, rfl, rfl, rfl, fun _ => rfl⟩
      · simp [Facade.next, next]
      · simp [Facade.next, next]
    | eraseSession session => exact .erased next
    | createSession sessionId start => exact .created next
    | unlockIfOwned | sendEndAck | deleteByPrefix | releaseSessions =>
      refine .same ⟨rfl, rfl, rfl, rfl, fun _ => rfl⟩ ?_ ?_
      · simp [Facade.next, next]
      · simp [Facade.next, next]
  | locked
  | lockScan => exact .same (.trans (.lockAgent f _) ⟨rfl, rfl, rfl, rfl, fun _ => rfl⟩) nofun nofun
  | owned =>
    exact .same (.trans (.setOwnsAgentLock f _ true) ⟨rfl, rfl, rfl, rfl, fun _ => rfl⟩) nofun nofun
  | scanned =>
    rw [scanSession]
    split <;> exact .same ⟨rfl, rfl, rfl, rfl, fun _ => rfl⟩ nofun nofun
  | finished =>
    rw [finishSession]
    split <;> exact .same ⟨rfl, rfl, rfl, rfl, fun _ => rfl⟩ nofun nofun
  | unlockScan =>
    split
    · refine .same (SameTable.trans ?_ (.unlockAgent _ _)) nofun nofun
      exact ⟨rfl, rfl, rfl, rfl, fun _ => rfl⟩
    · exact .same ⟨rfl, rfl, rfl, rfl, fun _ => rfl⟩ nofun nofun
  | stop => exact .same (.lockAgent f _) nofun nofun
  | dataBatch | batchEnd | openSession | deleteAgent | passed | taken | flushed | flushRaised | waited
  | zombies | updated | updateRaised | checked | indexed | indexRaised | unlocked | invoked
  | timer | timeOut => exact .same ⟨rfl, rfl, rfl, rfl, fun _ => rfl⟩ nofun nofun

/-- An erased session is no longer in the map, and its size goes back to the quota. -/
theorem eraseSession_eq (f : Facade) (session : Nat) :
    (f.find session = none ∧ f.eraseSession session = f) ∨
    ∃ object, f.find session = some object ∧ f.eraseSession session =
        { f with
          agentSessions := f.agentSessions.deleteWhere (·.id = session)
          dataValueQuotaRemaining :=
            if 0 < (f.objects object).declaredSize then
              (f.dataValueQuotaRemaining + (f.objects object).declaredSize) % 2 ^ 64
            else f.dataValueQuotaRemaining } := by
  cases found : f.find session with
  | none => exact .inl ⟨rfl, by simp [eraseSession, found]⟩
  | some object =>
    refine .inr ⟨object, rfl, ?_⟩
    simp only [eraseSession, found, restoreQuota]
    split <;> rfl

end Facade

/-- The constructor returns unless the size is zero in a mode that needs data. -/
theorem create_run (sessionId : Nat) (start : Start) :
    ((AgentSession.create sessionId (some start)).run [] = .ok (.ofStart sessionId start)
      [.startAck .ok (AgentSession.padAgentId (start.agentId.getD "")) sessionId
        (start.moduleName.getD "")]) ∨
    (start.size = 0 ∧ ∃ e, (AgentSession.create sessionId (some start)).run [] = .error e
      [.startAck .error (start.agentId.getD "") sessionId (start.moduleName.getD "")]) := by
  by_cases empty : (start.size = 0 && !start.mode.mayBeEmpty) = true
  · refine .inr ⟨?_, .agentSessionException "Invalid size", ?_⟩
    · simp only [Bool.and_eq_true, decide_eq_true_eq] at empty
      exact empty.1
    · simp [AgentSession.create, empty]
  · refine .inl ?_
    simp only [AgentSession.create, empty]
    rfl

namespace Facade

variable {f : Facade}

/-- What an attempt to create a session leaves: the map as it was, or one session more, built from
the Start and within both limits. -/
inductive Creation (f : Facade) (sessionId : Nat) (start : Start) : Facade → Prop
  | refused {g : Facade} (answers : List Answer)
      (quota : f.dataValueQuotaRemaining < 2 ^ 64 →
        g.dataValueQuotaRemaining = f.dataValueQuotaRemaining)
      (same : g = { f with
        dataValueQuotaRemaining := g.dataValueQuotaRemaining
        responses := f.responses ++ answers.map (⟨none, ·⟩) }) :
      Creation f sessionId start g
  | opened (few : f.agentSessions.rows.length < f.maxSessions)
      (fits : start.size.toNat ≤ f.dataValueQuotaRemaining) (fresh : f.find sessionId = none) :
      Creation f sessionId start
        ((({ f with
            dataValueQuotaRemaining := f.dataValueQuotaRemaining - start.size.toNat }).addSession
          sessionId (.ofStart sessionId start)).send (some f.allocated)
            [.startAck .ok (AgentSession.padAgentId (start.agentId.getD "")) sessionId
              (start.moduleName.getD "")])

theorem restoreQuota_eq (f : Facade) (size : Nat) :
    f.restoreQuota size = { f with
      dataValueQuotaRemaining :=
        if 0 < size then (f.dataValueQuotaRemaining + size) % 2 ^ 64
        else f.dataValueQuotaRemaining } := by
  rw [restoreQuota]
  split <;> rfl

theorem createSession_creation (f : Facade) (sessionId : Nat) (start : Start) :
    Creation f sessionId start (f.createSession sessionId start) := by
  rw [createSession]
  split
  · exact .refused _ (fun _ => rfl) rfl
  · rename_i few
    split
    · exact .refused _ (fun _ => rfl) rfl
    · rename_i fits
      simp only
      split
      · rw [restoreQuota_eq]
        refine .refused [] (fun bound => ?_) (by simp)
        simp only
        split
        · rw [Nat.sub_add_cancel (by omega), Nat.mod_eq_of_lt bound]
        · omega
      · rename_i absent
        rw [constructSession]
        rcases create_run sessionId start with built | ⟨empty, e, raised⟩
        · rw [built]
          exact .opened (by omega) (by omega) (by simpa using absent)
        · rw [raised]
          simp only [restoreQuota_eq, empty]
          exact .refused _ (fun _ => rfl) rfl

theorem createSession_frame (f : Facade) (sessionId : Nat) (start : Start) :
    f.createSession sessionId start = let g := f.createSession sessionId start
      { f with
        agentSessions := g.agentSessions
        dataValueQuotaRemaining := g.dataValueQuotaRemaining
        objects := g.objects
        allocated := g.allocated
        responses := g.responses } := by
  have made := f.createSession_creation sessionId start
  generalize f.createSession sessionId start = g at made ⊢
  cases made with
  | refused _ _ same => rw [same]
  | opened => rfl

theorem eraseSession_frame (f : Facade) (session : Nat) :
    f.eraseSession session =
      { f with
        agentSessions := (f.eraseSession session).agentSessions
        dataValueQuotaRemaining := (f.eraseSession session).dataValueQuotaRemaining } := by
  rcases f.eraseSession_eq session with ⟨_, same⟩ | ⟨_, _, same⟩
  · rw [same]
  · rw [same]

theorem receiveStart_frame (f : Facade) (start : Start) (isAvailable : Bool) :
    f.receiveStart start isAvailable =
      { f with
        responses := (f.receiveStart start isAvailable).responses
        admitting := (f.receiveStart start isAvailable).admitting } := by
  rw [receiveStart]
  split
  · rfl
  · split <;> rfl

/-- Erasing a session leaves the contexts of all objects. -/
theorem eraseSession_objects (f : Facade) (session : Nat) :
    (f.eraseSession session).objects = f.objects := by
  rw [eraseSession_frame]

theorem mem_eraseSession {session : Nat} {s : Live} :
    s ∈ (f.eraseSession session).agentSessions.rows ↔
      s ∈ f.agentSessions.rows ∧ s.id ≠ session := by
  rcases f.eraseSession_eq session with ⟨gone, same⟩ | ⟨_, _, same⟩
  · rw [same]
    refine ⟨fun member => ⟨member, ?_⟩, And.left⟩
    have absent : f.agentSessions.find session = none := by simpa [find] using gone
    exact (Table.find_none_iff _ _).mp absent s member
  · rw [same]
    simp [Table.mem_deleteWhere_iff]

/-- The objects of the live sessions have been built, and with the numbers of the sessions. -/
structure Mapped (f : Facade) : Prop where
  built : ∀ s ∈ f.agentSessions.rows, s.object < f.allocated
  number : ∀ s ∈ f.agentSessions.rows, (f.context s.object).sessionId = s.id

theorem Mapped.congr {g : Facade} (mapped : Mapped f) (same : SameTable f g) : Mapped g := by
  constructor
  · rw [same.sessions, same.allocated]
    exact mapped.built
  · intro s member
    rw [same.sessions] at member
    exact (congrArg Identity.sessionId (same.identity s.object)).trans (mapped.number s member)

theorem eraseSession_allocated (f : Facade) (session : Nat) :
    (f.eraseSession session).allocated = f.allocated := by
  rw [eraseSession_frame]

theorem Mapped.erase (mapped : Mapped f) (session : Nat) : Mapped (f.eraseSession session) := by
  constructor
  · intro s member
    rw [eraseSession_allocated]
    exact mapped.built s (mem_eraseSession.mp member).1
  · intro s member
    rw [context, eraseSession_objects]
    exact mapped.number s (mem_eraseSession.mp member).1

theorem mem_addSession {sessionId : Nat} (fresh : f.find sessionId = none)
    (session : AgentSession) {s : Live} : s ∈ (f.addSession sessionId session).agentSessions.rows ↔
      s ∈ f.agentSessions.rows ∨ s = ⟨sessionId, f.allocated⟩ := by
  have absent : f.agentSessions.find (Live.id ⟨sessionId, f.allocated⟩) = none := by
    simpa [find] using fresh
  simp [addSession, Table.rows_insert absent]

theorem Mapped.add (mapped : Mapped f) {sessionId : Nat} {start : Start}
    (fresh : f.find sessionId = none) :
    Mapped (f.addSession sessionId (.ofStart sessionId start)) := by
  constructor
  · intro s member
    rcases (mem_addSession fresh _).mp member with early | rfl
    · exact Nat.lt_succ_of_lt (mapped.built s early)
    · exact Nat.lt_succ_self _
  · intro s member
    rcases (mem_addSession fresh _).mp member with early | rfl
    · have other : s.object ≠ f.allocated := (mapped.built s early).ne
      simpa [addSession, context, Function.update_of_ne other] using mapped.number s early
    · simp [addSession, context, AgentSession.ofStart]

theorem Mapped.create (mapped : Mapped f) (sessionId : Nat) (start : Start) :
    Mapped (f.createSession sessionId start) := by
  have made := f.createSession_creation sessionId start
  generalize f.createSession sessionId start = g at made ⊢
  cases made with
  | refused answers _ same =>
    rw [same]
    exact ⟨mapped.built, mapped.number⟩
  | opened _ _ fresh =>
    have reserved : Mapped { f with
        dataValueQuotaRemaining := f.dataValueQuotaRemaining - start.size.toNat } :=
      ⟨mapped.built, mapped.number⟩
    have added : Mapped (addSession _ sessionId (.ofStart sessionId start)) := reserved.add fresh
    exact ⟨added.built, added.number⟩

theorem Mapped.step {g : Facade} (mapped : Mapped f) (moved : Transition f act g) : Mapped g := by
  cases tableStep moved with
  | same table _ _ => exact mapped.congr table
  | erased _ => exact ⟨(mapped.erase _).built, (mapped.erase _).number⟩
  | created _ => exact ⟨(mapped.create _ _).built, (mapped.create _ _).number⟩

theorem Mapped.initial (maxSessions quota : Nat) : Mapped (initial maxSessions quota) :=
  ⟨by simp [Facade.initial, Table.empty], by simp [Facade.initial, Table.empty]⟩

/-- At most one object is built, the one the constructor makes. -/
theorem createSession_allocated (f : Facade) (sessionId : Nat) (start : Start) :
    (f.createSession sessionId start).allocated = f.allocated ∨
      (f.createSession sessionId start).allocated = f.allocated + 1 ∧
        (f.createSession sessionId start).objects f.allocated = .ofStart sessionId start := by
  have made := f.createSession_creation sessionId start
  generalize f.createSession sessionId start = h at made ⊢
  cases made with
  | refused _ _ same =>
    rw [same]
    exact .inl rfl
  | opened => exact .inr ⟨rfl, by simp [send, addSession]⟩

theorem createSession_allocated_le (f : Facade) (sessionId : Nat) (start : Start) :
    f.allocated ≤ (f.createSession sessionId start).allocated := by
  rcases f.createSession_allocated sessionId start with same | ⟨more, _⟩ <;> omega

/-- The number of objects that were built never falls. -/
theorem allocated_le {g : Facade} (moved : Transition f act g) : f.allocated ≤ g.allocated := by
  cases tableStep moved with
  | same table _ _ => exact table.allocated.ge
  | erased _ => exact (f.eraseSession_allocated _).ge
  | created _ => exact f.createSession_allocated_le _ _

theorem createSession_objects (f : Facade) (sessionId : Nat) (start : Start) {object : Nat}
    (built : object < f.allocated) :
    (f.createSession sessionId start).objects object = f.objects object := by
  have made := f.createSession_creation sessionId start
  generalize f.createSession sessionId start = h at made ⊢
  cases made with
  | refused _ _ same => rw [same]
  | opened => exact Function.update_of_ne built.ne _ _

/-- What never changes of a session object that was built. -/
theorem identity_step {g : Facade} {object : Nat} (moved : Transition f act g)
    (built : object < f.allocated) : (g.objects object).identity = (f.objects object).identity := by
  cases tableStep moved with
  | same table _ _ => exact table.identity object
  | erased _ => exact congrArg (AgentSession.identity <| · object) (f.eraseSession_objects _)
  | created _ => exact congrArg AgentSession.identity (f.createSession_objects _ _ built)

variable {session object : Nat}

theorem find_some_iff :
    f.find session = some object ↔ ⟨session, object⟩ ∈ f.agentSessions.rows := by
  constructor
  · intro found
    obtain ⟨s, live, rfl⟩ := Option.map_eq_some_iff.mp found
    obtain ⟨member, rfl⟩ := (Table.find_some_iff _ _ _).mp live
    exact member
  · intro member
    have live := (Table.find_some_iff f.agentSessions session _).mpr ⟨member, rfl⟩
    rw [Facade.find, live]
    rfl

theorem createSession_keeps (f : Facade) (sessionId : Nat) (start : Start) {s : Live}
    (member : s ∈ f.agentSessions.rows) :
    s ∈ (f.createSession sessionId start).agentSessions.rows := by
  have made := f.createSession_creation sessionId start
  generalize f.createSession sessionId start = h at made ⊢
  cases made with
  | refused _ _ same =>
    rw [same]
    exact member
  | opened _ _ fresh => exact (mem_addSession fresh (.ofStart sessionId start)).mpr (.inl member)

theorem find_step {g : Facade} (moved : Transition f act g) (live : f.find session = some object) :
    g.find session = some object ∨ f.next act = some (.eraseSession session) := by
  rw [find_some_iff] at live ⊢
  cases tableStep moved with
  | same table _ _ =>
    rw [table.sessions]
    exact .inl live
  | @erased t other rest next =>
    by_cases same : session = other
    · exact .inr (by simp [Facade.next, next, same])
    · exact .inl (mem_eraseSession.mpr ⟨live, same⟩)
  | created _ => exact .inl (f.createSession_keeps _ _ live)

theorem Mapped.find (mapped : Mapped f) (found : f.find session = some object) :
    object < f.allocated ∧ (f.context object).sessionId = session := by
  have member := find_some_iff.mp found
  exact ⟨mapped.built _ member, mapped.number _ member⟩

end Facade

end GuardSarm.Inventory
