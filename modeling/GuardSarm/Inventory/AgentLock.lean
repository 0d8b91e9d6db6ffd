import GuardSarm.Inventory.LockStep

/-! Who holds the lock of an agent. A session of a metadata or group mode and the scan
after a feed update each call `lockAgent`; a lock is an entry of a set that both share.
`Watched` adds the session objects on whose behalf the lock was taken and not yet given
back; no branch reads them. -/
namespace GuardSarm.Inventory

open List

/-- The manager, with the session objects that hold their agent's lock. -/
structure Watched where
  facade : Facade
  holders : List Nat

namespace Watched

/-- `lockAgent` is called for the session the indexer thread has taken, and `unlockAgent` by the
operation of that name. -/
def holdersAfter (w : Watched) : Act → List Nat
  | .index _ =>
    match w.facade.phase with
    | .lock object => object :: w.holders
    | _ => w.holders
  | .perform t =>
    match w.facade.todo t with
    | .unlockAgent object _ :: _ => w.holders.erase object
    | _ => w.holders
  | _ => w.holders

def step (env : Environment) (w : Watched) (act : Act) : Option Watched :=
  (w.facade.step env act).map (⟨·, w.holdersAfter act⟩)

def initial (maxSessions quota : Nat) : Watched := ⟨.initial maxSessions quota, []⟩

def Holds (w : Watched) (agentId : String) : Prop :=
  (∃ object ∈ w.holders, (w.facade.context object).agentId = agentId) ∨
    ∃ scan ∈ w.facade.scans, scan.agentId = agentId

end Watched

namespace Facade

variable {f g : Facade} {act : Act} {object : Nat}

/-- An operation that releases a lock names the agent of its session object. -/
def Named (f : Facade) : Op → Prop
  | .unlockAgent object agentId => object < f.allocated ∧ agentId = (f.context object).agentId ∧
    (f.context object).mode.locksAgent = true
  | .unlockIfOwned object agentId true =>
    object < f.allocated ∧ agentId = (f.context object).agentId
  | _ => True

/-- What the locks are taken and released for. -/
structure Oriented (f : Facade) : Prop extends Registered f where
  named : ∀ t, ∀ op ∈ f.todo t, f.Named op
  owns : ∀ object, (f.context object).ownsAgentLock = true →
    object < f.allocated ∧ (f.context object).mode.locksAgent = true
  locking : ∀ object, f.phase.locking = some object → (f.context object).mode.locksAgent = true
  ids : ∀ object < f.allocated, (f.context object).agentId ≠ ""

theorem mode_step (moved : Transition f act g) (built : object < f.allocated) :
    (g.context object).mode = (f.context object).mode :=
  congrArg Identity.mode (identity_step moved built)

theorem agentId_step (moved : Transition f act g) (built : object < f.allocated) :
    (g.context object).agentId = (f.context object).agentId :=
  congrArg Identity.agentId (identity_step moved built)

theorem Named.step {op : Op} (named : f.Named op) (moved : Transition f act g) : g.Named op := by
  have grows := allocated_le moved
  cases op with
  | unlockAgent object agentId =>
    obtain ⟨built, same, locks⟩ := named
    refine ⟨built.trans_le grows, same.trans (agentId_step moved built).symm, ?_⟩
    rw [mode_step moved built]
    exact locks
  | unlockIfOwned object agentId reset =>
    cases reset with
    | false => trivial
    | true =>
      obtain ⟨built, same⟩ := named
      exact ⟨built.trans_le grows, same.trans (agentId_step moved built).symm⟩
  | _ => trivial

theorem Phase.object_of_locking {phase : Phase} (locking : phase.locking = some object) :
    phase.object = some object := by
  cases phase <;> simp_all [Phase.locking, Phase.object]

theorem padAgentId_ne_empty (agentId : String) : AgentSession.padAgentId agentId ≠ "" := by
  rw [AgentSession.padAgentId]
  split
  · rename_i short
    obtain ⟨n, more⟩ : ∃ n, 3 - agentId.utf8ByteSize = n + 1 := ⟨2 - agentId.utf8ByteSize, by omega⟩
    rw [more]
    intro empty
    have size := congrArg String.utf8ByteSize empty
    simp [String.pushn, Nat.repeat] at size
    exact absurd size.1.2 (by decide)
  · rename_i long
    rintro rfl
    simp at long

/-- The lists given to a thread name the agents of their session objects. -/
theorem Oriented.scheduled (oriented : Oriented f) {t : Thread} {ops : List Op}
    (given : Scheduled f act t ops) : ∀ op ∈ ops, f.Named op := by
  have callback : ∀ callbacks, callbacks <+: f.indexerConnector.notify →
      ∀ op ∈ callbacks.flatMap f.notifyOps, f.Named op := by
    intro callbacks taken op member
    obtain ⟨callback, waited, member⟩ := mem_flatMap.mp member
    have waits := taken.subset waited
    cases callback with
    | updated object =>
      simp only [notifyOps, mem_cons, not_mem_nil, or_false] at member
      rcases member with rfl | rfl | rfl | rfl
      · trivial
      · exact ⟨oriented.notified_built waits, rfl, oriented.updates object waits⟩
      · trivial
      · trivial
    | indexed object =>
      simp only [notifyOps, mem_cons, not_mem_nil, or_false] at member
      rcases member with rfl | rfl | rfl <;> trivial
  have concluded : ∀ status object, ∀ op ∈ f.conclude status object, f.Named op := by
    simp [conclude, Named]
  cases given with
  | flushed _ taken | invoked _ taken | timer taken => exact callback _ taken
  | @caught input object phase =>
    have built : object < f.allocated := by
      rcases phase with phase | phase <;> exact oriented.held_built (by rw [phase]; rfl)
    exact forall_mem_cons.mpr ⟨⟨built, rfl⟩, concluded _ _⟩
  | zombies =>
    refine forall_mem_append.mpr ⟨?_, by simp [Named]⟩
    apply forall_cleanupZombies <;> intros <;> trivial
  | checked => simp [Named]
  | scanRaised | finished => exact concluded _ _
  | timedOut => simp [Named]
  | admitted =>
    refine forall_mem_append.mpr ⟨?_, by simp [Named]⟩
    apply forall_cleanupStale <;> intros <;> trivial

theorem Oriented.named_step (oriented : Oriented f) (moved : Transition f act g)
    (met : f.KeepsLocks act) (t : Thread) : ∀ op ∈ g.todo t, g.Named op := by
  have did := todoStep moved t
  generalize g.todo t = ops at did
  intro op member
  refine Named.step ?_ moved
  cases did with
  | same => exact oriented.named t op member
  | ran _ next => exact oriented.named t op (by simp [next, member])
  | @expanded object agentId reset rest runs next owns =>
    rcases mem_append.mp member with new | old
    · cases reset with
      | false =>
        subst runs
        have disowned : (f.context object).ownsAgentLock = false := by
          simpa only [KeepsLocks, next] using met
        rw [owns] at disowned
        cases disowned
      | true =>
        obtain ⟨built, same⟩ : f.Named (.unlockIfOwned object agentId true) :=
          oriented.named t _ (by simp [next])
        simp only [unlocking, if_true, cons_append, nil_append, mem_cons,
          not_mem_nil, or_false] at new
        rcases new with rfl | rfl
        · trivial
        · exact ⟨built, same, (oriented.owns object owns).2⟩
    · exact oriented.named t op (by simp [next, old])
  | scheduled given => exact oriented.scheduled given op member

theorem Oriented.ids_step (oriented : Oriented f) (moved : Transition f act g) :
    ∀ object < g.allocated, (g.context object).agentId ≠ "" := by
  have early : ∀ object < f.allocated, (g.context object).agentId ≠ "" := by
    intro object built
    rw [agentId_step moved built]
    exact oriented.ids object built
  cases tableStep moved with
  | same table _ _ =>
    rw [table.allocated]
    exact early
  | @erased t session rest next =>
    rw [setTodo, eraseSession_allocated]
    exact early
  | @created t sessionId start rest next =>
    rcases f.createSession_allocated sessionId start with same | ⟨more, made⟩
    · rw [setTodo, same]
      exact early
    · intro object built
      rw [setTodo, more] at built
      rcases Nat.lt_succ_iff_lt_or_eq.mp built with old | rfl
      · exact early object old
      · simp only [setTodo, context, made]
        exact padAgentId_ne_empty _

theorem Oriented.step (oriented : Oriented f) (moved : Transition f act g)
    (met : f.KeepsLocks act) : Oriented g where
  toRegistered := oriented.toRegistered.step moved
  named := oriented.named_step moved met
  owns object after := by
    have before : object < f.allocated ∧ (f.context object).mode.locksAgent = true := by
      rcases owns_step moved after with before | phase
      · exact oriented.owns object before
      · exact ⟨oriented.held_built (by rw [phase]; rfl), oriented.locking object (by rw [phase]; rfl)⟩
    rw [mode_step moved before.1]
    exact ⟨before.1.trans_le (allocated_le moved), before.2⟩
  locking object after := by
    rcases locking_step moved after with before | ⟨⟨response, queued, rfl⟩, locks⟩
    · rw [mode_step moved (oriented.held_built (Phase.object_of_locking before))]
      exact oriented.locking object before
    · rw [mode_step moved (oriented.queued_built queued)]
      exact locks
  ids := oriented.ids_step moved

theorem Oriented.initial (maxSessions quota : Nat) : Oriented (initial maxSessions quota) where
  toRegistered := .initial maxSessions quota
  named _ _ member := by cases member
  owns _ owns := by cases owns
  locking _ locking := by cases locking
  ids object built := absurd built (Nat.not_lt_zero object)

theorem pending_eq_zero {p : Op → Bool} (none_ : ∀ t, ∀ op ∈ f.todo t, p op = false) :
    f.pending p = 0 := by
  have zero : ∀ t, (f.todo t).countP p = 0 := fun t =>
    countP_eq_zero.mpr fun op member => by simp [none_ t op member]
  simp [pending, zero]

/-- No release is owed to an object that was not built. -/
theorem Oriented.releases_unbuilt (oriented : Oriented f) (unbuilt : f.allocated ≤ object) :
    f.releases object = 0 := by
  have phase : f.phase.releases object = 0 := by
    by_contra held
    have owned : f.phase.object = some object := by
      cases at_ : f.phase <;> simp [at_, Phase.releases, Phase.object] at held ⊢ <;> exact held
    have built := oriented.held_built owned
    omega
  have todo : f.pending (Op.releases object) = 0 := by
    apply pending_eq_zero
    intro t op member
    have named := oriented.named t op member
    cases op with
    | unlockAgent o agentId =>
      have other : o ≠ object := by
        have built := named.1
        omega
      simp [Op.releases, other]
    | unlockIfOwned o agentId reset =>
      cases reset with
      | false => rfl
      | true =>
        have other : o ≠ object := by
          have built := named.1
          omega
        simp [Op.releases, other]
    | _ => rfl
  have notify : f.indexerConnector.notify.count (.updated object) = 0 := by
    apply count_eq_zero.mpr
    intro member
    have built : object < f.allocated := oriented.notified_built member
    omega
  rw [releases, phase, todo, notify]

/-- The agents of the session objects that hold a lock. -/
def heldBy (f : Facade) (holders : List Nat) : Multiset String :=
  (holders : Multiset Nat).map fun object => (f.context object).agentId

/-- The agents of the scans that hold a lock; a scan of no agent locks them all. -/
def scanned (scans : List FeedScan) : Multiset String :=
  ((scans : Multiset FeedScan).map (·.agentId)).filter (· ≠ "")

theorem heldBy_step (moved : Transition f act g) {holders : List Nat}
    (built : ∀ object ∈ holders, object < f.allocated) : g.heldBy holders = f.heldBy holders :=
  Multiset.map_congr rfl fun object member => agentId_step moved (built object member)

theorem heldBy_erase {holders : List Nat} (member : object ∈ holders) :
    f.heldBy (holders.erase object) = (f.heldBy holders).erase (f.context object).agentId := by
  rw [heldBy, heldBy, ← Multiset.coe_erase]
  exact Multiset.map_erase_of_mem _ _ member

theorem scanned_cons {scans more : List FeedScan} {scan : FeedScan}
    (perm : more.Perm (scan :: scans)) : scanned more =
      if scan.agentId = "" then scanned scans else scan.agentId ::ₘ scanned scans := by
  rw [scanned, scanned, Multiset.coe_eq_coe.mpr perm, ← Multiset.cons_coe, Multiset.map_cons]
  by_cases empty : scan.agentId = ""
  · rw [if_pos empty, Multiset.filter_cons_of_neg (p := (· ≠ "")) _ (not_not.mpr empty)]
  · rw [if_neg empty, Multiset.filter_cons_of_pos (p := (· ≠ "")) _ empty]

end Facade

open Facade

/-- The blocked agents are the agents of the holders, each once; and nobody else is owed a
release. -/
structure Guarded (w : Watched) : Prop extends Oriented w.facade where
  agents : w.facade.blockedAgents.val = w.facade.heldBy w.holders + scanned w.facade.scans
  owed : ∀ object, (w.facade.context object).mode.locksAgent = true →
    w.facade.releases object ≤ w.holders.count object
  holding : ∀ object ∈ w.holders, object < w.facade.allocated
  scans : ∀ scan ∈ w.facade.scans, scan.agentId ≠ "" → scan.locked = true
  awaiting : ∀ start, w.facade.Awaits start → start.agent ∉ w.facade.blockedAgents

namespace Watched

variable {w : Watched} {g : Facade} {act : Act} {object : Nat}

theorem holdersAfter_same
    (kept : ∀ object agentId, w.facade.next act ≠ some (.unlockAgent object agentId))
    (free : ∀ input object, act = .index input → w.facade.phase ≠ .lock object) :
    w.holdersAfter act = w.holders := by
  cases act with
  | index input =>
    cases at_ : w.facade.phase with
    | lock o => exact absurd at_ (free input o rfl)
    | _ => simp [holdersAfter, at_]
  | perform t =>
    cases todo : w.facade.todo t with
    | nil => simp [holdersAfter, todo]
    | cons op rest =>
      cases op with
      | unlockAgent o agentId => exact absurd (by simp [Facade.next, todo]) (kept o agentId)
      | _ => simp [holdersAfter, todo]
  | _ => rfl

theorem holdersAfter_locked {input : Input} (phase : w.facade.phase = .lock object) :
    w.holdersAfter (.index input) = object :: w.holders := by
  simp [holdersAfter, phase]

variable {agentId : String}

theorem holdersAfter_released (next : w.facade.next act = some (.unlockAgent object agentId)) :
    w.holdersAfter act = w.holders.erase object := by
  cases act with
  | perform t =>
    obtain ⟨rest, todo⟩ := head?_eq_some_iff.mp next
    simp [holdersAfter, todo]
  | _ => cases next

theorem holdersAfter_cases (w : Watched) (act : Act) :
    (∃ own, w.facade.phase = .lock own ∧ w.holdersAfter act = own :: w.holders) ∨
    (∃ own agentId, w.facade.next act = some (.unlockAgent own agentId) ∧
      w.holdersAfter act = w.holders.erase own) ∨ w.holdersAfter act = w.holders := by
  by_cases locks : ∃ input own, act = .index input ∧ w.facade.phase = .lock own
  · obtain ⟨input, own, rfl, phase⟩ := locks
    exact .inl ⟨own, phase, holdersAfter_locked phase⟩
  · by_cases releases : ∃ own agentId, w.facade.next act = some (.unlockAgent own agentId)
    · obtain ⟨own, agentId, next⟩ := releases
      exact .inr (.inl ⟨own, agentId, next, holdersAfter_released next⟩)
    · exact .inr (.inr (holdersAfter_same (by simpa using releases)
        fun input own index phase => locks ⟨input, own, index, phase⟩))

/-- A new holder is the session the indexer thread has taken. -/
theorem mem_holdersAfter (member : object ∈ w.holdersAfter act) :
    object ∈ w.holders ∨ w.facade.phase = .lock object := by
  obtain ⟨own, phase, after⟩ | ⟨own, agentId, _, after⟩ | after := w.holdersAfter_cases act
  · rw [after] at member
    rcases mem_cons.mp member with rfl | early
    · exact .inr phase
    · exact .inl early
  · exact .inl (mem_of_mem_erase (after ▸ member))
  · exact .inl (after ▸ member)

theorem count_le_after (kept : ∀ agentId, w.facade.next act ≠ some (.unlockAgent object agentId)) :
    w.holders.count object ≤ (w.holdersAfter act).count object := by
  obtain ⟨own, _, after⟩ | ⟨own, agentId, next, after⟩ | after := w.holdersAfter_cases act
  · rw [after, count_cons]
    exact Nat.le_add_right _ _
  · have other : object ≠ own := by
      rintro rfl
      exact kept agentId next
    rw [after, count_erase_of_ne other]
  · rw [after]

end Watched

namespace Guarded

variable {w : Watched} {g : Facade} {act : Act}

theorem owed_step (guarded : Guarded w) (moved : Transition w.facade act g)
    (met : w.facade.KeepsLocks act) (object : Nat)
    (locks : (g.context object).mode.locksAgent = true) :
    g.releases object ≤ (w.holdersAfter act).count object := by
  have did := releaseStep moved met object
  by_cases built : object < w.facade.allocated
  · rw [mode_step moved built] at locks
    have owed := guarded.owed object locks
    cases did with
    | kept le none_ => exact (le.trans owed).trans (Watched.count_le_after none_)
    | locked index phase le =>
      subst index
      rw [Watched.holdersAfter_locked phase, count_cons_self]
      omega
    | released next le =>
      rw [Watched.holdersAfter_released next, count_erase_self]
      omega
    | taken _ _ free =>
      rw [locks] at free
      cases free
  · have none_ := guarded.releases_unbuilt (not_lt.mp built)
    cases did with
    | kept le _ => omega
    | locked _ phase _ => exact absurd (guarded.held_built (by rw [phase]; rfl)) built
    | released _ le => omega
    | taken queued own _ =>
      subst own
      exact absurd (guarded.queued_built queued) built

theorem holds_of_next (guarded : Guarded w) {t : Thread} {object : Nat}
    {rest : List Op} (next : w.facade.todo t = .unlockAgent object agentId :: rest) :
    object ∈ w.holders ∧ agentId = (w.facade.context object).agentId ∧ agentId ≠ "" := by
  obtain ⟨built, same, locks⟩ : w.facade.Named (.unlockAgent object agentId) :=
    guarded.named t _ (by simp [next])
  have owed := guarded.owed object locks
  have counted := w.facade.countP_le_pending t (Op.releases object)
  rw [next, countP_cons_of_pos (by simp [Op.releases])] at counted
  refine ⟨count_pos_iff.mp ?_, same, same ▸ guarded.ids object built⟩
  rw [Facade.releases] at owed
  omega

theorem agents_step (guarded : Guarded w) (moved : Transition w.facade act g)
    (met : w.facade.KeepsLocks act) :
    g.blockedAgents.val = g.heldBy (w.holdersAfter act) + scanned g.scans := by
  have agents := guarded.agents
  have held : g.heldBy w.holders = w.facade.heldBy w.holders := heldBy_step moved guarded.holding
  cases lockStep moved with
  | same locks kept free =>
    rw [Watched.holdersAfter_same kept free, locks.blocked, locks.scans, held, agents]
  | @started start isAvailable =>
    obtain ⟨blocked, scans⟩ := w.facade.receiveStart_locks start isAvailable
    rw [show w.holdersAfter (.start _ _) = w.holders from rfl, held, blocked, scans, agents]
  | opened =>
    exact agents
  | @locked input object g phase locks =>
    have built : object < w.facade.allocated := guarded.held_built (by rw [phase]; rfl)
    have free : w.facade.Unclaimed (w.facade.context object).agentId := by
      simpa only [KeepsLocks, phase] using met
    have scans : g.scans = w.facade.scans := by rw [locks.scans, lockAgent_eq]
    have added : g.heldBy (object :: w.holders) =
        (w.facade.context object).agentId ::ₘ w.facade.heldBy w.holders := by
      rw [heldBy_step moved (forall_mem_cons.mpr ⟨built, guarded.holding⟩)]
      rfl
    rw [Watched.holdersAfter_locked phase, added, scans, locks.blocked, lockAgent_blocked,
      if_neg (guarded.ids object built), Finset.insert_val_of_notMem free.1, agents,
      Multiset.cons_add]
  | @unlocked t object agentId rest next =>
    obtain ⟨holds, same, named⟩ := guarded.holds_of_next next
    have runs : w.facade.next (.perform t) = some (.unlockAgent object agentId) := by
      simp [Facade.next, next]
    have scans : (w.facade.unlockAgent agentId).scans = w.facade.scans := by rw [unlockAgent_eq]
    have blocked : ((w.facade.unlockAgent agentId).setTodo t rest).blockedAgents =
        w.facade.blockedAgents.erase agentId :=
      (w.facade.unlockAgent_blocked agentId).trans (if_neg named)
    have member : agentId ∈ w.facade.heldBy w.holders := by
      rw [same]
      exact Multiset.mem_map_of_mem _ (Multiset.mem_coe.mpr holds)
    rw [Watched.holdersAfter_released runs, blocked, Finset.erase_val, agents,
      Multiset.erase_add_left_pos _ member,
      heldBy_step moved (fun o stays => guarded.holding o (mem_of_mem_erase stays)),
      heldBy_erase holds, ← same]
    exact congrArg _ (congrArg scanned scans.symm)
  | @scanLocked agentId =>
    rw [show w.holdersAfter (.lockScan agentId) = w.holders from rfl, held]
    have scans : (w.facade.lockAgent agentId).2.scans = w.facade.scans := by rw [lockAgent_eq]
    rw [scans, scanned_cons (perm_append_singleton _ _)]
    refine (congrArg Finset.val (w.facade.lockAgent_blocked agentId)).trans ?_
    split
    · exact agents
    · rw [Finset.insert_val_of_notMem met.1, agents, Multiset.add_cons]
  | @scanUnlocked scan member =>
    rw [show w.holdersAfter (.unlockScan scan) = w.holders from rfl, held]
    rw [scanned_cons (perm_cons_erase member)] at agents
    by_cases empty : scan.agentId = ""
    · rw [if_pos empty] at agents
      split
      · rw [unlockAgent_blocked, if_pos empty]
        rw [unlockAgent_eq]
        exact agents
      · exact agents
    · rw [if_neg empty] at agents
      rw [if_pos (guarded.scans scan member empty), unlockAgent_blocked, if_neg empty,
        Finset.erase_val]
      rw [unlockAgent_eq]
      refine (congrArg (Multiset.erase · scan.agentId) agents).trans ?_
      rw [Multiset.add_cons, Multiset.erase_cons_head]

theorem step (guarded : Guarded w) (moved : Transition w.facade act g)
    (met : w.facade.KeepsLocks act) : Guarded ⟨g, w.holdersAfter act⟩ where
  toOriented := guarded.toOriented.step moved met
  agents := guarded.agents_step moved met
  owed := guarded.owed_step moved met
  holding object member := by
    refine lt_of_lt_of_le ?_ (allocated_le moved)
    rcases Watched.mem_holdersAfter member with early | phase
    · exact guarded.holding object early
    · exact guarded.held_built (by rw [phase]; rfl)
  scans scan member named := by
    rcases scans_step moved member with early | ⟨rfl, locked⟩
    · exact guarded.scans scan early named
    · have free : scan.agentId ∉ w.facade.blockedAgents := met.1
      simpa [lockAgent, named, free] using locked
  awaiting start awaits := by
    rcases awaits_step moved awaits with before | ⟨⟨isAvailable, rfl⟩, passed⟩
    · intro blocked
      rcases blocked_step moved met blocked with early | apart
      · exact guarded.awaiting start before early
      · exact apart start before rfl
    · cases moved
      rw [(w.facade.receiveStart_locks start isAvailable).1]
      rcases met with padded | free
      · exact padded ▸ passed
      · exact free

theorem initial (maxSessions quota : Nat) : Guarded (.initial maxSessions quota) where
  toOriented := .initial maxSessions quota
  agents := rfl
  owed _ _ := Nat.zero_le _
  holding _ member := by cases member
  scans _ member := by cases member
  awaiting start awaits := by simp [Watched.initial, Facade.initial]

theorem holds_iff (guarded : Guarded w) (named : agentId ≠ "") :
    w.Holds agentId ↔ agentId ∈ w.facade.blockedAgents := by
  rw [← Finset.mem_val, guarded.agents, Multiset.mem_add]
  simp [Watched.Holds, heldBy, scanned, named]

theorem blocked_ne_empty (guarded : Guarded w) : "" ∉ w.facade.blockedAgents := by
  rw [← Finset.mem_val, guarded.agents, Multiset.mem_add]
  rintro (member | member)
  · obtain ⟨object, holds, empty⟩ := Multiset.mem_map.mp member
    exact guarded.ids object (guarded.holding object holds) empty
  · simp [scanned] at member

end Guarded

/-- Every agent that is held is locked, and every agent in the set is held. -/
structure LocksHeld (w : Watched) : Prop where
  locked : ∀ agentId ≠ "", w.Holds agentId → ∀ exempt, w.facade.isAgentLocked agentId exempt = true
  free : ∀ agentId, ¬w.Holds agentId → agentId ∉ w.facade.blockedAgents

/-- The step lets the Start pass its checks, or creates its session. -/
def Admits (f : Facade) (act : Act) (g : Facade) (start : Start) : Prop :=
  (∃ isAvailable, act = .start start isAvailable ∧ g.admitting ≠ f.admitting) ∨
    ∃ sessionId, f.next act = some (.createSession sessionId start) ∧
      g.agentSessions ≠ f.agentSessions

namespace Guarded

variable {w : Watched} {g : Facade} {act : Act}

theorem locksHeld (guarded : Guarded w) : LocksHeld w := by
  constructor
  · intro agentId named holds exempt
    have blocked := (guarded.holds_iff named).mp holds
    simp [isAgentLocked, blocked]
  · intro agentId nobody blocked
    have named : agentId ≠ "" := by
      rintro rfl
      exact guarded.blocked_ne_empty blocked
    exact nobody ((guarded.holds_iff named).mpr blocked)

theorem not_holds_of_admits (guarded : Guarded w) (moved : Transition w.facade act g)
    (met : w.facade.KeepsLocks act) {start : Start} (admits : Admits w.facade act g start) :
    ¬w.Holds start.agent := by
  have named : start.agent ≠ "" := padAgentId_ne_empty _
  rw [guarded.holds_iff named]
  rcases admits with ⟨isAvailable, rfl, passes⟩ | ⟨sessionId, next, _⟩
  · cases moved
    have awaits : (w.facade.receiveStart start isAvailable).Awaits start := by
      rw [receiveStart] at passes ⊢
      split at passes
      · exact absurd rfl passes
      · rename_i unlocked
        rw [if_neg unlocked]
        split at passes
        · exact absurd rfl passes
        · rename_i available
          rw [if_neg available]
          exact .inl (by simp)
    have free := (guarded.step .start met).awaiting start awaits
    rwa [(w.facade.receiveStart_locks start isAvailable).1] at free
  · cases act with
    | perform t =>
      obtain ⟨rest, todo⟩ := head?_eq_some_iff.mp next
      exact guarded.awaiting start (.inr ⟨t, sessionId, by simp [todo]⟩)
    | _ => cases next

end Guarded

namespace Watched

/-- The manager takes a step, and the holders are noted. -/
def Takes (env : Environment) (w : Watched) (act : Act) (w' : Watched) : Prop :=
  w.step env act = some w'

def KeepsLocks (w : Watched) (act : Act) : Prop := w.facade.KeepsLocks act

/-- A check of `KeepsLocks` that computes. -/
def keepsLocks (w : Watched) (act : Act) : Bool :=
  let f := w.facade
  let unclaimed (agentId : String) : Bool :=
    decide (agentId ∉ f.blockedAgents) && f.admitting.all (·.agent != agentId) &&
      [Thread.indexer, .timer, .sessionTimeout, .admission].all fun t => (f.todo t).all fun
        | .createSession _ start => start.agent != agentId
        | _ => true
  match act with
  | .index _ =>
    match f.phase with
    | .lock object => unclaimed (f.context object).agentId
    | .handle object => !(f.context object).mode.locksAgent
    | _ => true
  | .lockScan agentId => unclaimed agentId
  | .perform t =>
    match f.todo t with
    | .unlockIfOwned object _ false :: _ => !(f.context object).ownsAgentLock
    | _ => true
  | .start start _ => start.agent == start.agentId.getD "" || decide (start.agent ∉ f.blockedAgents)
  | _ => true

theorem keepsLocks_sound {w : Watched} {act : Act} (met : w.keepsLocks act = true) :
    w.KeepsLocks act := by
  have unclaimed : ∀ agentId, (decide (agentId ∉ w.facade.blockedAgents) &&
      w.facade.admitting.all (·.agent != agentId) &&
      [Thread.indexer, .timer, .sessionTimeout, .admission].all fun t => (w.facade.todo t).all fun
        | .createSession _ start => start.agent != agentId
        | _ => true) = true → w.facade.Unclaimed agentId := by
    intro agentId checked
    simp only [Bool.and_eq_true, decide_eq_true_eq, all_eq_true, bne_iff_ne] at checked
    obtain ⟨⟨free, admitting⟩, creating⟩ := checked
    refine ⟨free, ?_⟩
    rintro start (waits | ⟨t, sessionId, creates⟩)
    · exact admitting start waits
    · simpa using creating t (by cases t <;> simp) _ creates
  rw [KeepsLocks]
  cases act with
  | index input =>
    simp only [keepsLocks] at met
    rw [Facade.KeepsLocks]
    cases at_ : w.facade.phase with
    | lock object =>
      simp only [at_] at met
      exact unclaimed _ met
    | handle object =>
      intro locks
      simp [at_, locks] at met
    | _ => trivial
  | lockScan agentId => exact unclaimed agentId met
  | perform t =>
    simp only [keepsLocks] at met
    rw [Facade.KeepsLocks]
    split
    · rename_i todo
      simpa [todo] using met
    · trivial
  | start start isAvailable => simpa [keepsLocks, Facade.KeepsLocks] using met
  | _ => trivial

def updating : Start := { sampleStart "001" with mode := .metadataDelta, size := 0 }

/-- A metadata session is opened and ended, and the indexer thread takes the given steps for it. -/
def updateSteps (steps : Nat) : List Act :=
  opening updating 12 ++ [.message (.endSession 12)] ++ List.replicate steps (.index .quiet)

/-- A scan takes the lock before the session of the agent does, and the session gives it back. -/
def sharedLock : List Act :=
  opening updating 12 ++ [.message (.endSession 12), .lockScan "001"] ++
    List.replicate 8 (.index .quiet) ++ List.replicate 2 (.perform .indexer)

/-- The session times out while it owns the lock, a scan takes the lock, and the callback of the
session gives it back again. -/
def releasedTwice : List Act :=
  updateSteps 4 ++ [.timeOut 12] ++ List.replicate 5 (.perform .sessionTimeout) ++
    [.lockScan "001"] ++ List.replicate 4 (.index .quiet) ++ List.replicate 2 (.perform .indexer)

/-- A run that ends with the agent of a scan not locked. -/
theorem not_held_of_scan {acts : List Act}
    (ran : (execute (step .plain) (initial 1000 500000) acts).map (fun w =>
      (w.facade.scans, w.facade.isAgentLocked "001" false)) = some ([⟨"001", true⟩], false)) :
    ∃ w, Steps (Takes .plain) (initial 1000 500000) acts w ∧ ¬LocksHeld w := by
  obtain ⟨w, ran, state⟩ := Option.map_eq_some_iff.mp ran
  simp only [Prod.mk.injEq] at state
  refine ⟨w, Steps.of_execute ran, fun held => ?_⟩
  have locked := held.locked "001" (by decide) (.inr ⟨⟨"001", true⟩, by simp [state.1], rfl⟩) false
  rw [state.2] at locked
  cases locked

end Watched

end GuardSarm.Inventory
