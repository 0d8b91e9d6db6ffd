import GuardSarm.Inventory.Schedule

/-! Which sessions are admitted. The quota that is left and the sizes of the live
sessions always add up to the configured quota, and the limit on the number of
sessions is kept. Two live sessions of one agent and module are possible, because a
Start is compared with the live sessions before its agent id is padded. -/
namespace GuardSarm.Inventory

open List

namespace Facade

variable {f g : Facade} {act : Act} {maxSessions quota : Nat}

/-- The sizes of the live sessions together. -/
def declaredSizes (f : Facade) : Nat :=
  (f.agentSessions.rows.map fun s => (f.objects s.object).declaredSize).sum

theorem SameTable.declaredSizes (same : SameTable f g) : g.declaredSizes = f.declaredSizes := by
  rw [Facade.declaredSizes, Facade.declaredSizes, same.sessions]
  congr 1
  apply map_congr_left
  intro s _
  exact congrArg Identity.declaredSize (same.identity s.object)

/-- The map is within its limits. -/
structure Accounted (maxSessions quota : Nat) (f : Facade) : Prop where
  quota : f.dataValueQuotaRemaining + f.declaredSizes = quota
  limit : f.maxSessions = maxSessions
  few : f.agentSessions.rows.length ≤ maxSessions

theorem Accounted.congr (accounted : Accounted maxSessions quota f) (same : SameTable f g) :
    Accounted maxSessions quota g :=
  ⟨by rw [same.quota, same.declaredSizes, accounted.quota],
    same.maxSessions.trans accounted.limit, by rw [same.sessions]; exact accounted.few⟩

theorem Accounted.erase (accounted : Accounted maxSessions quota f) (bound : quota < 2 ^ 64) (session : Nat) :
    Accounted maxSessions quota (f.eraseSession session) := by
  rcases f.eraseSession_eq session with ⟨_, same⟩ | ⟨object, found, same⟩
  · rw [same]
    exact accounted
  · obtain ⟨live, member, rfl⟩ := Option.map_eq_some_iff.mp found
    have rest := Table.sum_deleteWhere member fun s => (f.objects s.object).declaredSize
    have total := accounted.quota
    rw [declaredSizes, ← rest] at total
    rw [same]
    constructor
    · simp only [declaredSizes]
      split
      · rw [Nat.mod_eq_of_lt (by omega)]
        omega
      · omega
    · exact accounted.limit
    · exact (length_filter_le _ _).trans accounted.few

variable {start : Start} {sessionId : Nat}

/-- The new session's object is none of those that are live. -/
theorem Accounted.add (accounted : Accounted maxSessions quota f) (mapped : Mapped f)
    (few : f.agentSessions.rows.length < f.maxSessions)
    (fits : start.size.toNat ≤ f.dataValueQuotaRemaining) (fresh : f.find sessionId = none) :
    Accounted maxSessions quota
      ({ f with dataValueQuotaRemaining := f.dataValueQuotaRemaining - start.size.toNat }.addSession
        sessionId (.ofStart sessionId start)) := by
  have absent : f.agentSessions.find (Live.id ⟨sessionId, f.allocated⟩) = none := by
    simpa [find] using fresh
  have rows := Table.rows_insert absent
  have old : ∀ s ∈ f.agentSessions.rows, s.object ≠ f.allocated := fun s member =>
    (mapped.built s member).ne
  constructor
  · have sizes : (f.agentSessions.rows.map fun s =>
        (Function.update f.objects f.allocated (.ofStart sessionId start) s.object).declaredSize) =
        f.agentSessions.rows.map fun s => (f.objects s.object).declaredSize := by
      apply map_congr_left
      intro s member
      rw [Function.update_of_ne (old s member)]
    have total := accounted.quota
    rw [declaredSizes] at total
    have size : (AgentSession.ofStart sessionId start).declaredSize = start.size.toNat := rfl
    simp only [addSession, declaredSizes, rows, map_append, sizes, sum_append,
      map_cons, map_nil, sum_cons, sum_nil, Function.update_self, size]
    omega
  · exact accounted.limit
  · rw [accounted.limit] at few
    simp only [addSession, rows, length_append, length_singleton]
    omega

theorem Accounted.create (accounted : Accounted maxSessions quota f) (mapped : Mapped f)
    (bound : quota < 2 ^ 64) (sessionId : Nat) (start : Start) : Accounted maxSessions quota (f.createSession sessionId start) := by
  have total := accounted.quota
  have made := f.createSession_creation sessionId start
  generalize f.createSession sessionId start = g at made ⊢
  cases made with
  | refused answers same restored =>
    apply accounted.congr
    rw [restored, same (by omega)]
    exact ⟨rfl, rfl, rfl, rfl, fun _ => rfl⟩
  | opened few fits fresh =>
    exact (accounted.add mapped few fits fresh).congr ⟨rfl, rfl, rfl, rfl, fun _ => rfl⟩

theorem Accounted.step (accounted : Accounted maxSessions quota f) (mapped : Mapped f)
    (bound : quota < 2 ^ 64) (moved : Transition f act g) : Accounted maxSessions quota g := by
  cases tableStep moved with
  | same table _ _ => exact accounted.congr table
  | erased _ => exact (accounted.erase bound _).congr ⟨rfl, rfl, rfl, rfl, fun _ => rfl⟩
  | created _ => exact (accounted.create mapped bound _ _).congr ⟨rfl, rfl, rfl, rfl, fun _ => rfl⟩

theorem Accounted.initial (maxSessions quota : Nat) :
    Accounted maxSessions quota (initial maxSessions quota) :=
  ⟨by simp [Facade.initial, declaredSizes, Table.empty], rfl, Nat.zero_le _⟩

/-- No two live sessions have the same agent and module. -/
def Distinct (f : Facade) : Prop :=
  ∀ s ∈ f.agentSessions.rows, ∀ s' ∈ f.agentSessions.rows,
    (f.context s.object).agentId = (f.context s'.object).agentId →
    (f.context s.object).moduleName = (f.context s'.object).moduleName → s = s'

instance (f : Facade) : Decidable f.Distinct :=
  inferInstanceAs (Decidable (∀ s ∈ _, ∀ s' ∈ _, _ → _ → s = s'))

/-- The live session has the agent and the module that a session for the Start would have. -/
def Clashes (f : Facade) (start : Start) (s : Live) : Prop :=
  (f.context s.object).agentId = AgentSession.padAgentId (start.agentId.getD "") ∧
    (f.context s.object).moduleName = start.moduleName.getD ""

instance (f : Facade) (start : Start) (s : Live) : Decidable (f.Clashes start s) :=
  inferInstanceAs (Decidable (_ ∧ _))

/-- A Start is admitted under the id that its session will have, or while no live session has
that id and its module. -/
def AdmitsPadded (f : Facade) : Act → Prop
  | .openSession start _ =>
    AgentSession.padAgentId (start.agentId.getD "") = start.agentId.getD "" ∨
      ∀ s ∈ f.agentSessions.rows, ¬f.Clashes start s
  | _ => True

theorem SameTable.context_eq (same : SameTable f g) (object : Nat) :
    (g.context object).agentId = (f.context object).agentId ∧
      (g.context object).moduleName = (f.context object).moduleName :=
  ⟨congrArg Identity.agentId (same.identity object),
    congrArg Identity.moduleName (same.identity object)⟩

theorem SameTable.clashes (same : SameTable f g) (start : Start) (s : Live) :
    g.Clashes start s ↔ f.Clashes start s := by
  rw [Clashes, Clashes, (same.context_eq s.object).1, (same.context_eq s.object).2]

end Facade

def Op.creates : Op → Bool
  | .createSession _ _ => true
  | _ => false

/-- A session is created by the last operation but one, which lets the session map go. -/
def CreatesLast : List Op → Prop
  | [] => True
  | op :: rest => if op.creates then rest = [.releaseSessions] else CreatesLast rest

theorem createsLast_append {ops rest : List Op} (other : ∀ op ∈ ops, op.creates = false) :
    CreatesLast (ops ++ rest) ↔ CreatesLast rest := by
  induction ops with
  | nil => rfl
  | cons op ops ih =>
    simp only [cons_append, CreatesLast, other op (by simp), Bool.false_eq_true, if_false]
    exact ih fun o member => other o (by simp [member])

variable {rest : List Op}

theorem CreatesLast.tail {op : Op} (last : CreatesLast (op :: rest)) : CreatesLast rest := by
  rw [CreatesLast] at last
  split at last
  · rw [last]
    trivial
  · exact last

namespace Facade

variable {f g : Facade} {act : Act} {maxSessions quota : Nat}

theorem cleanupStale_creates (f : Facade) (agentId moduleName : String) :
    ∀ op ∈ f.cleanupStale agentId moduleName, op.creates = false := by
  apply forall_cleanupStale <;> intros <;> rfl

theorem scheduled_creates {t : Thread} {ops : List Op} (given : Scheduled f act t ops) :
    (t = .admission ∧ CreatesLast ops) ∨ ∀ op ∈ ops, op.creates = false := by
  cases given with
  | flushed | invoked | timer =>
    refine .inr (forall_mem_flatMap.mpr fun callback _ => ?_)
    cases callback <;> simp [notifyOps, Op.creates]
  | caught | checked | scanRaised | finished | timedOut =>
    exact .inr (by simp [conclude, Op.creates])
  | zombies =>
    refine .inr (forall_mem_append.mpr ⟨?_, by simp [Op.creates]⟩)
    apply forall_cleanupZombies <;> intros <;> rfl
  | admitted =>
    refine .inl ⟨rfl, (createsLast_append (f.cleanupStale_creates _ _)).mpr ?_⟩
    simp [CreatesLast, Op.creates]

/-- Only the admission thread creates, and it creates last. -/
structure Ordered (f : Facade) : Prop where
  only : ∀ t ≠ .admission, ∀ op ∈ f.todo t, op.creates = false
  last : CreatesLast (f.todo .admission)

theorem unlocking_creates (object : Nat) (agentId : String) (reset : Bool) :
    ∀ op ∈ unlocking object agentId reset, op.creates = false := by
  cases reset <;> simp [unlocking, Op.creates]

theorem Ordered.step (ordered : Ordered f) (moved : Transition f act g) : Ordered g := by
  constructor
  · intro t other op member
    have did := todoStep moved t
    generalize g.todo t = ops at did member
    cases did with
    | same => exact ordered.only t other op member
    | ran _ next => exact ordered.only t other op (by simp [next, member])
    | @expanded object agentId reset rest _ next _ =>
      rcases mem_append.mp member with new | old
      · exact unlocking_creates object agentId reset op new
      · exact ordered.only t other op (by simp [next, old])
    | scheduled given =>
      rcases scheduled_creates given with ⟨same, _⟩ | none_
      · exact absurd same other
      · exact none_ op member
  · have did := todoStep moved .admission
    generalize g.todo .admission = ops at did
    cases did with
    | same => exact ordered.last
    | ran _ next => exact (next ▸ ordered.last).tail
    | @expanded object agentId reset rest _ next _ =>
      exact (createsLast_append (unlocking_creates object agentId reset)).mpr
        (next ▸ ordered.last).tail
    | scheduled given =>
      rcases scheduled_creates given with ⟨_, last⟩ | none_
      · exact last
      · rw [← ops.append_nil]
        exact (createsLast_append none_).mpr trivial

/-- The sessions in the way of a Start that is being admitted are about to be erased. -/
structure Cleared (f : Facade) : Prop extends Ordered f where
  distinct : f.Distinct
  cleared : ∀ sessionId start, .createSession sessionId start ∈ f.todo .admission →
    ∀ s ∈ f.agentSessions.rows, f.Clashes start s → .eraseSession s.id ∈ f.todo .admission

theorem SameTable.distinct (same : SameTable f g) (distinct : f.Distinct) : g.Distinct := by
  intro s member s' member'
  rw [same.sessions] at member member'
  rw [(same.context_eq s.object).1, (same.context_eq s.object).2, (same.context_eq s'.object).1,
    (same.context_eq s'.object).2]
  exact distinct s member s' member'

/-- A session that stands in the way of the Start is stale, if the Start was padded already. -/
theorem mem_cleanupStale {s : Live} (member : s ∈ f.agentSessions.rows)
    (padded : AgentSession.padAgentId (start.agentId.getD "") = start.agentId.getD "")
    (clashes : f.Clashes start s) :
    .eraseSession s.id ∈ f.cleanupStale (start.agentId.getD "") (start.moduleName.getD "") := by
  apply mem_flatMap.mpr
  refine ⟨s, mem_filter.mpr ⟨member, ?_⟩, by simp⟩
  simp [clashes.1, clashes.2, padded]

/-- A session in the way of a Start that is being admitted is erased by the step or later. -/
theorem Cleared.waits (cleared : Cleared f) (moved : Transition f act g) (met : f.AdmitsPadded act)
    (creates : .createSession sessionId start ∈ g.todo .admission) {s : Live}
    (member : s ∈ f.agentSessions.rows) (clashes : f.Clashes start s) :
    f.next act = some (.eraseSession s.id) ∨ .eraseSession s.id ∈ g.todo .admission := by
  have did := todoStep moved .admission
  generalize g.todo .admission = ops at did creates ⊢
  cases did with
  | same => exact .inr (cleared.cleared sessionId start creates s member clashes)
  | @ran op rest runs next =>
    have erased := cleared.cleared sessionId start (by simp [next, creates]) s member clashes
    rw [next] at erased
    rcases mem_cons.mp erased with head | tail
    · exact .inl (by simp [Facade.next, runs, next, head])
    · exact .inr tail
  | @expanded object agentId reset rest runs next _ =>
    have create : .createSession sessionId start ∈ rest := by
      rcases mem_append.mp creates with new | old
      · exact absurd (unlocking_creates _ _ _ _ new) (by simp [Op.creates])
      · exact old
    have erased := cleared.cleared sessionId start (by simp [next, create]) s member clashes
    rw [next] at erased
    rcases mem_cons.mp erased with head | tail
    · cases head
    · exact .inr (mem_append_right _ tail)
  | scheduled given =>
    cases given with
    | @admitted start' _ _ _ _ =>
      have same : start = start' := by
        rcases mem_append.mp creates with stale | last
        · exact absurd (f.cleanupStale_creates _ _ _ stale) (by simp [Op.creates])
        · simp only [mem_cons, Op.createSession.injEq, reduceCtorEq, not_mem_nil,
            or_false] at last
          exact last.2
      subst same
      rcases met with padded | none_
      · exact .inr (mem_append_left _ (mem_cleanupStale member padded clashes))
      · exact absurd clashes (none_ s member)

theorem Cleared.same (cleared : Cleared f) (moved : Transition f act g) (met : f.AdmitsPadded act)
    (table : SameTable f g) (kept : ∀ session, f.next act ≠ some (.eraseSession session)) :
    Cleared g := by
  refine ⟨cleared.toOrdered.step moved, table.distinct cleared.distinct, ?_⟩
  intro sessionId start creates s member clashes
  rw [table.sessions] at member
  rw [table.clashes] at clashes
  exact (cleared.waits moved met creates member clashes).resolve_left (kept s.id)

theorem Cleared.erased (cleared : Cleared f) {t : Thread} {session : Nat}
    (next : f.todo t = .eraseSession session :: rest)
    (moved : Transition f (.perform t) ((f.eraseSession session).setTodo t rest)) :
    Cleared ((f.eraseSession session).setTodo t rest) := by
  have context : ∀ object, ((f.eraseSession session).setTodo t rest).context object =
      f.context object := fun object => by
    change ((f.eraseSession session).objects object).context = _
    rw [eraseSession_objects]
    rfl
  refine ⟨cleared.toOrdered.step moved, ?_, ?_⟩
  · intro s member s' member'
    rw [context, context]
    exact cleared.distinct s (mem_eraseSession.mp member).1 s' (mem_eraseSession.mp member').1
  · intro sessionId start creates s member clashes
    rw [Clashes, context] at clashes
    obtain ⟨live, other⟩ := mem_eraseSession.mp member
    refine (cleared.waits moved trivial creates live clashes).resolve_left fun erases => other ?_
    simpa [Facade.next, next, eq_comm] using erases

/-- A new session with an agent and a module that no live session has. -/
theorem Distinct.add (distinct : f.Distinct) (mapped : Mapped f)
    (free : ∀ s ∈ f.agentSessions.rows, ¬f.Clashes start s) (fresh : f.find sessionId = none)
    (remaining : Nat) :
    ({ f with dataValueQuotaRemaining := remaining }.addSession sessionId
      (.ofStart sessionId start)).Distinct := by
  have absent : f.agentSessions.find (Live.id ⟨sessionId, f.allocated⟩) = none := by
    simpa [find] using fresh
  have rows := Table.rows_insert absent
  have old : ∀ s ∈ f.agentSessions.rows,
      Function.update f.objects f.allocated (.ofStart sessionId start) s.object =
        f.objects s.object := fun s member =>
    Function.update_of_ne (mapped.built s member).ne _ _
  intro s member s' member' agent module
  simp only [addSession, rows, mem_append, mem_singleton] at member member'
  simp only [addSession, context] at agent module
  rcases member with early | rfl
  · rcases member' with early' | rfl
    · rw [old s early, old s' early'] at agent module
      exact distinct s early s' early' agent module
    · rw [old s early, Function.update_self] at agent module
      exact absurd ⟨agent, module⟩ (free s early)
  · rcases member' with early' | rfl
    · rw [old s' early', Function.update_self] at agent module
      exact absurd ⟨agent.symm, module.symm⟩ (free s' early')
    · rfl

theorem Cleared.created (cleared : Cleared f) (mapped : Mapped f)
    (accounted : Accounted maxSessions quota f) (bound : quota < 2 ^ 64) {t : Thread}
    (next : f.todo t = .createSession sessionId start :: rest)
    (moved : Transition f (.perform t) ((f.createSession sessionId start).setTodo t rest)) :
    Cleared ((f.createSession sessionId start).setTodo t rest) := by
  have own : t = .admission := by
    by_contra other
    have none_ := cleared.only t other (.createSession sessionId start) (by simp [next])
    cases none_
  subst own
  have rest_eq : rest = [.releaseSessions] := by
    have last := cleared.last
    rw [next] at last
    simpa [CreatesLast, Op.creates] using last
  subst rest_eq
  -- Nothing is left to be erased, so no live session stands in the way.
  have free : ∀ s ∈ f.agentSessions.rows, ¬f.Clashes start s := by
    intro s member clashes
    have erased := cleared.cleared sessionId start (by simp [next]) s member clashes
    simp [next] at erased
  refine ⟨cleared.toOrdered.step moved, ?_, by simp [setTodo]⟩
  have made := f.createSession_creation sessionId start
  generalize f.createSession sessionId start = g at made ⊢
  cases made with
  | refused answers restored same =>
    have total := accounted.quota
    rw [restored (by omega)] at same
    rw [same]
    exact cleared.distinct
  | opened few fits fresh => exact cleared.distinct.add mapped free fresh _

theorem Cleared.step (cleared : Cleared f) (mapped : Mapped f)
    (accounted : Accounted maxSessions quota f) (bound : quota < 2 ^ 64) (moved : Transition f act g) (met : f.AdmitsPadded act) :
    Cleared g := by
  cases tableStep moved with
  | same table kept _ => exact cleared.same moved met table kept
  | erased next => exact cleared.erased next moved
  | created next => exact cleared.created mapped accounted bound next moved

theorem Cleared.initial (maxSessions quota : Nat) : Cleared (initial maxSessions quota) := by
  refine ⟨⟨?_, trivial⟩, ?_, ?_⟩
  · intro t _ op member
    cases member
  · intro s member
    cases member
  · intro sessionId start creates
    cases creates

instance (f : Facade) (act : Act) : Decidable (f.AdmitsPadded act) :=
  match act with
  | .openSession _ _ => inferInstanceAs (Decidable (_ ∨ _))
  | .message _ | .dataBatch _ | .batchItem _ | .start _ _ | .deleteAgent _ _ | .perform _
  | .index _ | .timer _ _ | .timeOut _ | .lockScan _ | .unlockScan _ | .stop =>
    inferInstanceAs (Decidable True)

/-- **The limits on sessions are kept in every run, and no two live sessions have the same agent
and module in every run that admits a Start under the id its session will have.** The second
half needs its condition: stale sessions are looked up by the id of the Start, and a shorter id
is padded only when the session is built. -/
theorem admission_invariants (env : Environment) (maxSessions : Nat) (quota : UInt64) :
    (∀ acts f, Steps (Takes env) (initial maxSessions quota.toNat) acts f →
      f.dataValueQuotaRemaining + f.declaredSizes = quota.toNat ∧
        f.agentSessions.rows.length ≤ maxSessions) ∧
    (∀ acts f, Steps (Meeting AdmitsPadded (Takes env)) (initial maxSessions quota.toNat) acts f →
      f.Distinct) := by
  have bound := quota.toNat_lt
  constructor
  · intro acts f run
    obtain ⟨_, accounted⟩ := run.invariant
      (P := fun f => Mapped f ∧ Accounted maxSessions quota.toNat f)
      (fun moved ⟨mapped, accounted⟩ =>
        ⟨mapped.step (step_transition moved), accounted.step mapped bound (step_transition moved)⟩)
      ⟨.initial maxSessions quota.toNat, .initial maxSessions quota.toNat⟩
    exact ⟨accounted.quota, accounted.few⟩
  · intro acts f run
    obtain ⟨_, _, cleared⟩ := run.invariant
      (P := fun f => Mapped f ∧ Accounted maxSessions quota.toNat f ∧ Cleared f)
      (fun ⟨met, moved⟩ ⟨mapped, accounted, cleared⟩ =>
        ⟨mapped.step (step_transition moved), accounted.step mapped bound (step_transition moved),
          cleared.step mapped accounted bound (step_transition moved) met⟩)
      ⟨.initial maxSessions quota.toNat, .initial maxSessions quota.toNat,
        .initial maxSessions quota.toNat⟩
    exact cleared.distinct

/-- The steps that open a session after one stale session was removed. -/
def reopening (start : Start) (sessionId : UInt64) : List Act :=
  [.start start true, .openSession start sessionId] ++ List.replicate 5 (.perform .admission)

/-- Agent 001 opens a session, and opens another after the first was found stale. -/
theorem admission_invariants_reopened : ∃ acts f,
    Steps (Meeting AdmitsPadded (Takes .plain)) (initial 1000 500000) acts f ∧
      f.agentSessions.rows = [⟨13, 1⟩] ∧ f.dataValueQuotaRemaining + f.declaredSizes = 500000 ∧
        f.Distinct := by
  have ran : (executeChecked (fun f act => f.AdmitsPadded act) (step .plain) (initial 1000 500000)
      (opening (sampleStart "001") 12 ++ reopening (sampleStart "001") 13)).map
        (·.agentSessions.rows) = some [⟨13, 1⟩] := by decide
  obtain ⟨f, ran, rows⟩ := Option.map_eq_some_iff.mp ran
  have run := Steps.of_executeChecked of_decide_eq_true ran
  refine ⟨_, f, run, rows, ?_, ?_⟩
  · exact ((admission_invariants .plain 1000 500000).1 _ f (run.mono And.right)).1
  · exact (admission_invariants .plain 1000 500000).2 _ f run

/-- Agent 1 opens two sessions of one module: neither Start finds a session of agent 1 in the map,
which holds two sessions of agent 001 in the end. -/
theorem admission_twice : ∃ acts f, Steps (Takes .plain) (initial 1000 500000) acts f ∧
    ¬f.Distinct := by
  have ran : (execute (step .plain) (initial 1000 500000)
      (opening (sampleStart "1") 12 ++ opening (sampleStart "1") 13)).map
        (fun f => decide f.Distinct) = some false := by decide
  obtain ⟨f, ran, clash⟩ := Option.map_eq_some_iff.mp ran
  exact ⟨_, f, Steps.of_execute ran, of_decide_eq_false clash⟩

end Facade

end GuardSarm.Inventory
