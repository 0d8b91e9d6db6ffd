import GuardSarm.Inventory.Answers
import GuardSarm.Inventory.SessionData

/-! The data of one session and the data of the others. A session's data is removed by
the range of its number, and the session is then erased. The range also covers every
number that starts with the same digits; and three kinds of sessions are erased with
no removal at all, so they must not be sent data. -/
namespace GuardSarm.Inventory

open List

/-- The operations erase the session without having removed its data. -/
def unprepared (session : Nat) : List Op → Bool
  | [] => false
  | .deleteByPrefix s :: rest => s != session && unprepared session rest
  | .eraseSession s :: rest => s == session || unprepared session rest
  | _ :: rest => unprepared session rest

variable {session : Nat}

theorem unprepared_append {ops rest : List Op} (bare : unprepared session (ops ++ rest) = true) :
    unprepared session ops = true ∨ unprepared session rest = true := by
  induction ops with
  | nil => exact .inr bare
  | cons op ops ih =>
    cases op with
    | deleteByPrefix s =>
      simp only [cons_append, unprepared, Bool.and_eq_true] at bare ⊢
      rcases ih bare.2 with first | last
      · exact .inl ⟨bare.1, first⟩
      · exact .inr last
    | eraseSession s =>
      simp only [cons_append, unprepared, Bool.or_eq_true] at bare ⊢
      rcases bare with here | later
      · exact .inl (.inl here)
      · exact (ih later).imp_left .inr
    | _ => exact ih bare

theorem unprepared_flatMap {α : Type} {ops : α → List Op} {as : List α}
    (bare : unprepared session (as.flatMap ops) = true) :
    ∃ a ∈ as, unprepared session (ops a) = true := by
  induction as with
  | nil => cases bare
  | cons a as ih =>
    rcases unprepared_append bare with first | last
    · exact ⟨a, by simp, first⟩
    · obtain ⟨b, member, bare⟩ := ih last
      exact ⟨b, by simp [member], bare⟩

theorem unprepared_tail {op : Op} {rest : List Op}
    (other : op ≠ .deleteByPrefix session) (bare : unprepared session rest = true) :
    unprepared session (op :: rest) = true := by
  cases op with
  | deleteByPrefix s =>
    have apart : s ≠ session := fun same => other (by rw [same])
    simp [unprepared, apart, bare]
  | eraseSession s => simp [unprepared, bare]
  | _ => exact bare

namespace Facade

variable {f g : Facade} {act : Act}

/-- The session a step stores something for, if it is live. -/
def storesFor (f : Facade) : Act → Option Nat
  | .message (.dataValue data) => some data.session
  | .message (.dataContext data) => some data.session
  | .batchItem batch =>
    match f.batches[batch]? with
    | some (some data :: _) => some data.session
    | _ => none
  | _ => none

inductive StoreStep (f : Facade) : Act → Facade → Prop
  | same {act : Act} {g : Facade} (store : g.dataStore = f.dataStore)
      (kept : ∀ session, f.next act ≠ some (.deleteByPrefix session)) : StoreStep f act g
  | stored {act : Act} {g : Facade} {session object : Nat} {key : Key} {value : Payload}
      (live : f.find session = some object) (stores : f.storesFor act = some session)
      (own : KeyOf session key) (store : g.dataStore = f.dataStore.put key value)
      (kept : ∀ session, f.next act ≠ some (.deleteByPrefix session)) : StoreStep f act g
  | removed {t : Thread} {session : Nat} {rest : List Op}
      (next : f.todo t = .deleteByPrefix session :: rest) :
      StoreStep f (.perform t)
        ({ f with dataStore := f.dataStore.deleteByPrefix (decimal session) }.setTodo t rest)

theorem handle_store (f : Facade) (session : Nat) (call : Call) :
    (f.handle session call).dataStore = f.dataStore ∨
      ∃ object key value, f.find session = some object ∧ call.key = some key ∧
        (f.handle session call).dataStore = f.dataStore.put key value := by
  rw [handle]
  cases found : f.find session with
  | none => exact .inl rfl
  | some object =>
    have handled := after_handled ⟨f.objects object, f.dataStore, [], []⟩ call
    rcases handled.store with same | ⟨key, value, writes, stored⟩
    · exact .inl same
    · exact .inr ⟨object, key, value, rfl, writes, stored⟩

theorem StoreStep.quiet (store : g.dataStore = f.dataStore) (idle : f.next act = none) :
    StoreStep f act g :=
  .same store (by simp [idle])

/-- Only the data messages of a live session and the removal of a session's data change the
store. -/
theorem storeStep (moved : Transition f act g) : StoreStep f act g := by
  cases moved with
  | @message message =>
    rcases f.handle_store message.session message.call with same | ⟨_, key, _, live, writes, stored⟩
    · exact .quiet same rfl
    · cases message with
      | dataValue data =>
        cases writes
        exact .stored live rfl ⟨data.seq, .inl rfl⟩ stored (by simp [Facade.next])
      | dataContext data =>
        cases writes
        exact .stored live rfl ⟨data.seq, .inr rfl⟩ stored (by simp [Facade.next])
      | _ => cases writes
  | @batchItem batch value values found =>
    cases value with
    | none => exact .quiet rfl rfl
    | some data =>
      have stores : f.storesFor (.batchItem batch) = some data.session := by simp [storesFor, found]
      rcases handle_store { f with batches := f.batches.set batch values } data.session
        (.handleData (some data) (.dataValue (reserialize data))) with
        same | ⟨_, _, _, live, writes, stored⟩
      · exact .quiet same rfl
      · cases writes
        exact .stored live stores ⟨data.seq, .inl rfl⟩ stored (by simp [Facade.next])
  | start =>
    rw [receiveStart_frame]
    exact .quiet rfl rfl
  | @perform t op rest next _ =>
    have runs : f.next (.perform t) = some op := by simp [Facade.next, next]
    cases op with
    | deleteByPrefix session => exact .removed next
    | unlockAgent object agentId =>
      rw [Facade.perform, unlockAgent_eq]
      exact .same rfl (by simp [runs])
    | eraseSession session =>
      rw [Facade.perform, eraseSession_frame]
      exact .same rfl (by simp [runs])
    | createSession sessionId start =>
      rw [Facade.perform, createSession_frame]
      exact .same rfl (by simp [runs])
    | _ => exact .same rfl (by simp [runs])
  | scanned =>
    rw [scanSession]
    split <;> exact .quiet rfl rfl
  | finished =>
    rw [finishSession]
    split <;> exact .quiet rfl rfl
  | locked | lockScan | stop =>
    rw [lockAgent_eq]
    exact .quiet rfl rfl
  | unlockScan =>
    split
    · rw [unlockAgent_eq]
      exact .quiet rfl rfl
    · exact .quiet rfl rfl
  | dataBatch | batchEnd | openSession | deleteAgent | passed | taken | owned | flushed | flushRaised
  | waited | zombies | updated | updateRaised | checked | indexed | indexRaised | unlocked | invoked
  | timer | timeOut => exact .quiet rfl rfl

theorem store_removed (moved : Transition f act g)
    (removes : f.next act = some (.deleteByPrefix session)) :
    g.dataStore = f.dataStore.deleteByPrefix (decimal session) := by
  cases storeStep moved with
  | same _ kept | stored _ _ _ _ kept => exact absurd removes (kept session)
  | @removed t session' rest next =>
    have same : session' = session := by simpa [Facade.next, next] using removes
    subst same
    rfl

/-- The removal of a session's data removes all of it. -/
theorem removed_all (moved : Transition f act g)
    (removes : f.next act = some (.deleteByPrefix session)) : ¬g.dataStore.Holds session := by
  rw [store_removed moved removes]
  exact f.dataStore.not_holds_deleteByPrefix session

theorem keyed_step (keyed : f.dataStore.Keyed) (moved : Transition f act g) :
    g.dataStore.Keyed := by
  cases storeStep moved with
  | same store _ => rwa [store]
  | stored _ _ own store _ =>
    rw [store]
    exact keyed.put own _
  | removed _ => exact keyed.deleteByPrefix _

/-- A list of operations that erases a session without removing its data is for an update or for
a module check. -/
theorem scheduled_unprepared {t : Thread} {ops : List Op}
    (given : Scheduled f act t ops) (bare : unprepared session ops = true) :
    ∃ object, (f.context object).sessionId = session ∧
      (.updated object ∈ f.indexerConnector.notify ∨
        f.phase = .handle object ∧ (f.context object).mode = .moduleCheck) := by
  have callback : ∀ callbacks, callbacks <+: f.indexerConnector.notify →
      unprepared session (callbacks.flatMap f.notifyOps) = true →
        ∃ object, (f.context object).sessionId = session ∧
          .updated object ∈ f.indexerConnector.notify := by
    intro callbacks taken bare
    obtain ⟨callback, member, bare⟩ := unprepared_flatMap bare
    cases callback with
    | updated object => exact ⟨object, by simpa [notifyOps, unprepared] using bare, taken.subset member⟩
    | indexed object => simp [notifyOps, unprepared] at bare
  cases given with
  | flushed _ taken | invoked _ taken | timer taken =>
    obtain ⟨object, same, member⟩ := callback _ taken bare
    exact ⟨object, same, .inl member⟩
  | checked phase mode => exact ⟨_, by simpa [unprepared] using bare, .inr ⟨phase, mode⟩⟩
  | caught | scanRaised | finished | timedOut => simp [conclude, unprepared] at bare
  | zombies | admitted =>
    rcases unprepared_append bare with removal | last
    · obtain ⟨s, _, bare⟩ := unprepared_flatMap removal
      simp [unprepared] at bare
    · cases last

/-- Before the step: a session whose data is removed has a number that no other live session's
number starts with, a session that is sent data has a mode for it and is not being erased, and a
new session has a number that was not drawn before. -/
structure KeepsApart (f : Facade) (act : Act) : Prop where
  digits : ∀ session, f.next act = some (.deleteByPrefix session) →
    ∀ s ∈ f.agentSessions.rows, decimal session <+: decimal s.id → s.id = session
  data : ∀ session ∈ f.storesFor act, ∀ object ∈ f.find session,
    (f.context object).mode.mayBeEmpty = false ∧ ∀ t, unprepared session (f.todo t) = false
  fresh : ∀ sessionId start, f.next act = some (.createSession sessionId start) →
    ∀ object < f.allocated, (f.context object).sessionId ≠ sessionId

/-- Only live sessions that may be sent data have data, and it is removed before they are
erased. -/
structure Apart (f : Facade) : Prop extends Registered f where
  numbers : ∀ o < f.allocated, ∀ p < f.allocated,
    (f.context o).sessionId = (f.context p).sessionId → o = p
  holds : ∀ session, f.dataStore.Holds session →
    ∃ object, f.find session = some object ∧ (f.context object).mode.mayBeEmpty = false
  prepared : ∀ t session, unprepared session (f.todo t) = true → ¬f.dataStore.Holds session

theorem Apart.numbers_step (apart : Apart f) (moved : Transition f act g)
    (met : f.KeepsApart act) : ∀ o < g.allocated, ∀ p < g.allocated,
      (g.context o).sessionId = (g.context p).sessionId → o = p := by
  have kept : ∀ o < f.allocated, (g.context o).sessionId = (f.context o).sessionId := fun o built =>
    congrArg Identity.sessionId (identity_step moved built)
  have early : ∀ o < f.allocated, ∀ p < f.allocated,
      (g.context o).sessionId = (g.context p).sessionId → o = p := by
    intro o built p built' same
    rw [kept o built, kept p built'] at same
    exact apart.numbers o built p built' same
  cases tableStep moved with
  | same table _ _ =>
    rw [table.allocated]
    exact early
  | @erased t session rest next =>
    rw [setTodo, eraseSession_allocated]
    exact early
  | @created t sessionId start rest next =>
    have new := met.fresh sessionId start (by simp [Facade.next, next])
    rcases f.createSession_allocated sessionId start with same | ⟨more, made⟩
    · rw [setTodo, same]
      exact early
    · have number : ((f.createSession sessionId start).context f.allocated).sessionId = sessionId := by
        rw [context, made]
        rfl
      have drawn : ∀ o < f.allocated, (((f.createSession sessionId start).setTodo t rest).context
          o).sessionId ≠ sessionId := fun o built same => new o built ((kept o built).symm.trans same)
      intro o built p built' same
      rw [setTodo, more] at built built'
      rcases Nat.lt_succ_iff_lt_or_eq.mp built with old | rfl
      · rcases Nat.lt_succ_iff_lt_or_eq.mp built' with old' | rfl
        · exact early o old p old' same
        · exact absurd (same.trans number) (drawn o old)
      · rcases Nat.lt_succ_iff_lt_or_eq.mp built' with old' | rfl
        · exact absurd (same.symm.trans number) (drawn p old')
        · rfl

/-- A session for which a bare list is given has no data. -/
theorem Apart.scheduled (apart : Apart f) {t : Thread} {ops : List Op}
    (given : Scheduled f act t ops) (bare : unprepared session ops = true) :
    ¬f.dataStore.Holds session := by
  intro holds
  obtain ⟨own, live, sent⟩ := apart.holds session holds
  obtain ⟨built, number⟩ := apart.find live
  obtain ⟨object, same, cause⟩ := scheduled_unprepared given bare
  have is_own : object < f.allocated → object = own := fun built' =>
    apart.numbers object built' own built (same.trans number.symm)
  rcases cause with registered | ⟨phase, mode⟩
  · have locks := apart.updates object registered
    rw [is_own (apart.notified_built registered)] at locks
    cases kind : (f.context own).mode <;> simp [kind, Mode.locksAgent, Mode.mayBeEmpty] at locks sent
  · rw [is_own (apart.held_built (by rw [phase]; rfl))] at mode
    simp [mode, Mode.mayBeEmpty] at sent

/-- What is stored for a session after a step was stored before, or is stored by the step. -/
theorem holds_before (moved : Transition f act g) (holds : g.dataStore.Holds session) :
    f.dataStore.Holds session ∨
      f.storesFor act = some session ∧ ∃ object, f.find session = some object := by
  cases storeStep moved with
  | same store _ =>
    rw [store] at holds
    exact .inl holds
  | stored live stores own store _ =>
    rw [store] at holds
    rcases DataStore.holds_put own holds with same | early
    · subst same
      exact .inr ⟨stores, _, live⟩
    · exact .inl early
  | removed _ => exact .inl (DataStore.holds_of_deleteByPrefix holds)

theorem Apart.holds_step (apart : Apart f) (moved : Transition f act g) (met : f.KeepsApart act)
    (holds : g.dataStore.Holds session) :
    ∃ object, g.find session = some object ∧ (g.context object).mode.mayBeEmpty = false := by
  have live : ∃ object, f.find session = some object ∧
      (f.context object).mode.mayBeEmpty = false := by
    rcases holds_before moved holds with early | ⟨stores, object, live⟩
    · exact apart.holds session early
    · exact ⟨object, live, (met.data session stores object live).1⟩
  obtain ⟨object, live, sent⟩ := live
  have same := congrArg Identity.mode (identity_step moved (apart.find live).1)
  rcases find_step moved live with stays | erased
  · exact ⟨object, stays, (congrArg Mode.mayBeEmpty same).trans sent⟩
  · -- The session is erased: its data was removed before.
    cases act with
    | perform t =>
      obtain ⟨rest, next⟩ : ∃ rest, f.todo t = .eraseSession session :: rest := by
        simpa [Facade.next, head?_eq_some_iff] using erased
      have absent := apart.prepared t session (by simp [next, unprepared])
      rcases holds_before moved holds with early | ⟨stores, _⟩
      · exact absurd early absent
      · cases stores
    | _ => cases erased

theorem Apart.prepared_step (apart : Apart f) (moved : Transition f act g) (met : f.KeepsApart act)
    (t : Thread) (bare : unprepared session (g.todo t) = true) : ¬g.dataStore.Holds session := by
  intro holds
  have waiting : unprepared session (f.todo t) = true → False := by
    intro bare
    rcases holds_before moved holds with early | ⟨stores, object, live⟩
    · exact apart.prepared t session bare early
    · simp [(met.data session stores object live).2 t] at bare
  have did := todoStep moved t
  generalize g.todo t = ops at did bare
  cases did with
  | same => exact waiting bare
  | @ran op rest runs next =>
    by_cases removes : op = .deleteByPrefix session
    · subst runs removes
      exact removed_all moved (by simp [Facade.next, next]) holds
    · exact waiting (by rw [next]; exact unprepared_tail removes bare)
  | @expanded object agentId reset rest runs next _ =>
    rcases unprepared_append bare with unlocks | later
    · cases reset <;> cases unlocks
    · exact waiting (by rw [next]; exact later)
  | scheduled given =>
    rcases holds_before moved holds with early | ⟨stores, _⟩
    · exact apart.scheduled given bare early
    · cases given <;> cases stores

theorem Apart.step (apart : Apart f) (moved : Transition f act g) (met : f.KeepsApart act) :
    Apart g where
  toRegistered := apart.toRegistered.step moved
  numbers := apart.numbers_step moved met
  holds _ := apart.holds_step moved met
  prepared t _ := apart.prepared_step moved met t

theorem Apart.initial (maxSessions quota : Nat) : Apart (initial maxSessions quota) where
  toRegistered := .initial maxSessions quota
  numbers o built := absurd built (Nat.not_lt_zero o)
  holds _ holds := by
    obtain ⟨key, _, stored⟩ := holds
    exact absurd rfl stored
  prepared _ _ bare := by cases bare

/-- The step removes data of one session only, and no session that is gone has data. -/
structure Isolated (f : Facade) (act : Act) (g : Facade) : Prop where
  spared : ∀ session, f.next act = some (.deleteByPrefix session) →
    ∀ other key, other ≠ session → KeyOf other key → g.dataStore.get key = f.dataStore.get key
  gone : ∀ session, g.find session = none → ¬g.dataStore.Holds session

theorem Apart.isolated (apart : Apart f) (moved : Transition f act g) (met : f.KeepsApart act) :
    Isolated f act g := by
  constructor
  · intro session removes other key apartFrom own
    rw [store_removed moved removes, f.dataStore.get_deleteByPrefix own session]
    split
    · -- The other session's number starts with the same digits, so it is not live.
      rename_i digits
      by_contra stored
      obtain ⟨object, live, _⟩ := apart.holds other ⟨key, own, fun none_ => stored none_.symm⟩
      exact apartFrom (met.digits session removes _ (find_some_iff.mp live) digits)
    · rfl
  · intro session gone holds
    obtain ⟨object, live, _⟩ := apart.holds_step moved met holds
    rw [gone] at live
    cases live

/-- **Seeking a session visits exactly its keys, and a removal removes all of them, in every run;
it removes no others, and no session is gone before its data, in every run whose steps meet
`KeepsApart`.** -/
theorem session_data_isolated (env : Environment) (maxSessions quota : Nat) :
    (∀ acts f, Steps (Takes env) (initial maxSessions quota) acts f →
      (∀ session, ((f.dataStore.seek (decimal session ++ ['_'])).map (·.key)).Nodup ∧
        ∀ e, e ∈ f.dataStore.seek (decimal session ++ ['_']) ↔
          e ∈ f.dataStore.rows ∧ KeyOf session e.key) ∧
      ∀ act g session, Takes env f act g → f.next act = some (.deleteByPrefix session) →
        ¬g.dataStore.Holds session) ∧
    ∀ acts f, Steps (Meeting KeepsApart (Takes env)) (initial maxSessions quota) acts f →
      ∀ act g, f.KeepsApart act → Takes env f act g → Isolated f act g := by
  constructor
  · intro acts f run
    have keyed : f.dataStore.Keyed := run.invariant (P := fun f => f.dataStore.Keyed)
      (fun moved keyed => keyed_step keyed (step_transition moved))
      (by intro e member; cases member)
    refine ⟨fun session => ⟨f.dataStore.nodup_seek _, keyed.mem_seek_iff session⟩, ?_⟩
    intro act g session moved removes
    exact removed_all (step_transition moved) removes
  · intro acts f run act g met moved
    have apart : Apart f := run.invariant
      (fun ⟨met, moved⟩ apart => apart.step (step_transition moved) met)
      (.initial maxSessions quota)
    exact apart.isolated (step_transition moved) met

/-- A check of `KeepsApart` that computes. -/
def keepsApart (f : Facade) (act : Act) : Bool :=
  (match f.next act with
    | some (.deleteByPrefix session) => f.agentSessions.rows.all fun s =>
      !(decimal session).isPrefixOf (decimal s.id) || s.id == session
    | some (.createSession sessionId _) =>
      (List.range f.allocated).all fun object => (f.context object).sessionId != sessionId
    | _ => true) &&
  match (f.storesFor act).bind fun session => (f.find session).map fun object => (session, object) with
  | some (session, object) => !(f.context object).mode.mayBeEmpty &&
    [Thread.indexer, .timer, .sessionTimeout, .admission].all fun t =>
      !unprepared session (f.todo t)
  | none => true

theorem keepsApart_sound (met : f.keepsApart act = true) : f.KeepsApart act := by
  rw [keepsApart, Bool.and_eq_true] at met
  obtain ⟨runs, stores⟩ := met
  constructor
  · intro session removes s member digits
    simp only [removes, all_eq_true] at runs
    have starts : (decimal session).isPrefixOf (decimal s.id) = true :=
      isPrefixOf_iff_prefix.mpr digits
    simpa [starts] using runs s member
  · intro session stored object live
    rw [Option.mem_def] at stored live
    simp only [stored, live, Option.bind_some, Option.map_some, Bool.and_eq_true,
      Bool.not_eq_true', all_eq_true] at stores
    exact ⟨stores.1, fun t => stores.2 t (by cases t <;> simp)⟩
  · intro sessionId start creates object built
    simp only [creates, all_eq_true, mem_range] at runs
    simpa using runs object built

/-- Two agents each open a session, the second is sent its value, and the first times out. -/
def twoSessions (first second : UInt64) : List Act :=
  opening (sampleStart "001") first ++ opening (sampleStart "002") second ++
    [.message (.dataValue (sampleData second.toNat)), .timeOut first.toNat,
      .perform .sessionTimeout]

/-- Session 12 times out while session 13 has data. -/
theorem session_data_isolated_twelve : ∃ f g,
    Steps (Meeting KeepsApart (Takes .plain)) (initial 1000 500000) (twoSessions 12 13) f ∧
      Takes .plain f (.perform .sessionTimeout) g ∧
        f.next (.perform .sessionTimeout) = some (.deleteByPrefix 12) ∧
          g.dataStore.get (dataKey 13 0) = f.dataStore.get (dataKey 13 0) ∧
            f.dataStore.get (dataKey 13 0) ≠ none := by
  have ran : (executeChecked keepsApart (step .plain) (initial 1000 500000) (twoSessions 12 13)).map
      (fun f => (f.keepsApart (.perform .sessionTimeout), f.next (.perform .sessionTimeout),
        (f.step .plain (.perform .sessionTimeout)).isSome, f.dataStore.get (dataKey 13 0))) =
      some (true, some (.deleteByPrefix 12), true, some (.dataValue (sampleData 13))) := by
    decide +kernel
  obtain ⟨f, ran, state⟩ := Option.map_eq_some_iff.mp ran
  simp only [Prod.mk.injEq] at state
  obtain ⟨met, removes, steps, stored⟩ := state
  obtain ⟨g, moved⟩ := Option.isSome_iff_exists.mp steps
  have run := Steps.of_executeChecked keepsApart_sound ran
  have isolated := (session_data_isolated .plain 1000 500000).2 _ f run _ g
    (keepsApart_sound met) moved
  have same := isolated.spared 12 removes 13 (dataKey 13 0) (by decide) ⟨0, .inl rfl⟩
  exact ⟨f, g, run, moved, removes, same, by simp [stored]⟩

/-- A module check is sent a value, and is about to be erased. -/
def checkedWithData : List Act :=
  opening { sampleStart "001" with mode := .moduleCheck } 12 ++
    [.message (.dataValue (sampleData 12)), .message (.endSession 12), .index .quiet, .index .quiet,
      .perform .indexer]

/-- A value arrives again between the removal of the session's data and its end. -/
def lateData : List Act :=
  opening (sampleStart "001") 12 ++
    [.message (.dataValue (sampleData 12)), .message (.endSession 12)] ++
    List.replicate 6 (.index .quiet) ++ [.timer .accepting 3, .perform .timer, .perform .timer,
      .message (.dataValue (sampleData 12))]

/-- A run that ends with a session gone and a value of it stored. -/
theorem left_behind {acts : List Act} {t : Thread} (session : Nat)
    (ran : (execute (step .plain) (initial 1000 500000) acts).bind (fun f =>
      (f.step .plain (.perform t)).map fun g =>
        (g.find session, (g.dataStore.get (dataKey session 0)).isSome)) = some (none, true)) :
    ∃ f g, Steps (Takes .plain) (initial 1000 500000) acts f ∧
      Takes .plain f (.perform t) g ∧ ¬Isolated f (.perform t) g := by
  obtain ⟨f, ran, last⟩ := Option.bind_eq_some_iff.mp ran
  obtain ⟨g, moved, state⟩ := Option.map_eq_some_iff.mp last
  simp only [Prod.mk.injEq] at state
  refine ⟨f, g, Steps.of_execute ran, moved, fun isolated => ?_⟩
  exact isolated.gone session state.1 ⟨dataKey session 0, ⟨0, .inl rfl⟩,
    Option.isSome_iff_ne_none.mp state.2⟩

/-- The time-out of session 12 removes the value of session 123; and two sessions 12 are gone
while a value of theirs is stored. -/
theorem session_data_shared :
    (∃ f g, Steps (Takes .plain) (initial 1000 500000) (twoSessions 12 123) f ∧
      Takes .plain f (.perform .sessionTimeout) g ∧ g.find 123 = some 1 ∧
        ¬Isolated f (.perform .sessionTimeout) g) ∧
    (∃ f g, Steps (Takes .plain) (initial 1000 500000) checkedWithData f ∧
      Takes .plain f (.perform .indexer) g ∧ ¬Isolated f (.perform .indexer) g) ∧
    (∃ f g, Steps (Takes .plain) (initial 1000 500000) lateData f ∧
      Takes .plain f (.perform .timer) g ∧ ¬Isolated f (.perform .timer) g) := by
  refine ⟨?_, left_behind 12 (by decide +kernel), left_behind 12 (by decide +kernel)⟩
  have ran : (execute (step .plain) (initial 1000 500000) (twoSessions 12 123)).bind (fun f =>
      (f.step .plain (.perform .sessionTimeout)).map fun g =>
        (f.next (.perform .sessionTimeout), (f.dataStore.get (dataKey 123 0)).isSome, g.find 123,
          (g.dataStore.get (dataKey 123 0)).isSome)) =
      some (some (.deleteByPrefix 12), true, some 1, false) := by decide +kernel
  obtain ⟨f, ran, last⟩ := Option.bind_eq_some_iff.mp ran
  obtain ⟨g, moved, state⟩ := Option.map_eq_some_iff.mp last
  simp only [Prod.mk.injEq] at state
  obtain ⟨removes, stored, live, lost⟩ := state
  refine ⟨f, g, Steps.of_execute ran, moved, live, fun isolated => ?_⟩
  have same := isolated.spared 12 removes 123 (dataKey 123 0) (by decide) ⟨0, .inl rfl⟩
  rw [same, stored] at lost
  cases lost

end Facade

end GuardSarm.Inventory
