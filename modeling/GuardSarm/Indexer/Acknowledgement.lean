import GuardSarm.Lib.Steps
import GuardSarm.Indexer.Delivery

/-! When a registered callback is invoked, have the operations appended before
it been accepted? Not always: the flag that releases the callbacks, the callbacks
and the buffer are cleared by different branches. They have been in every run in
which no answer drops the buffer and the flag is not found set over operations
that still wait in it. -/
namespace GuardSarm.Indexer

open List

/-- A callback, with the number of operations appended before it was registered. -/
structure Callback where
  id : Nat
  before : Nat
  deriving DecidableEq, Repr

/-- The calls of the connector, each made under its mutex. -/
inductive Operation
  | bulkIndex (id index data version : Bytes)
  | bulkDelete (id index : Bytes)
  | deleteByQuery (index : Bytes) (agentId : String)
  | deleteByQueryExceptIds (index : Bytes) (agentId : String) (keepIds : List Bytes)
  | executeUpdateByQuery (indices : List Bytes) (query : String)
  | registerNotify (id : Nat)
  | flush
  | invokePendingCallbacks
  | timer
  | stop

/-- The call, with the callbacks it hands out. -/
def Operation.perform (server : Server) (maxBulkSize fuel : Nat) :
    Operation → Connector.Action Callback (List Callback)
  | .bulkIndex id index data version => do
    Connector.bulkIndex server maxBulkSize fuel id index data version
    return []
  | .bulkDelete id index => do
    Connector.bulkDelete server maxBulkSize fuel id index
    return []
  | .deleteByQuery index agentId => do
    Connector.queueDelete index agentId
    return []
  | .deleteByQueryExceptIds index agentId keepIds => do
    Connector.deleteByQueryExceptIds index agentId keepIds
    return []
  | .executeUpdateByQuery indices query => do
    Connector.executeUpdateByQuery server fuel indices query
    return []
  | .registerNotify id => do
    Connector.registerNotify ⟨id, (← get).appended.length⟩
    return []
  | .flush => Connector.flush server fuel
  | .invokePendingCallbacks => Connector.invokePendingCallbacks
  | .timer => Connector.timer server fuel
  | .stop => do
    modify fun c => { c with stopping := true }
    return []

/-- The connector with the callbacks handed out and not yet invoked, and those invoked. -/
structure World where
  connector : Connector Callback
  taken : List Callback
  invoked : List Callback

def World.initial : World where
  connector :=
    { bulkData := [], deleteByQuery := .empty, staleDeleteByQuery := [], notify := []
      boundaries := [], shouldNotifyAfterBulk := false, stopping := false, events := []
      appended := [] }
  taken := []
  invoked := []

/-- What a call leaves and hands out; none while it is retrying, or after a read past the buffer. -/
def outcome (result : EStateM.Result ConnectorError (Connector Callback) (List Callback)) :
    Option (List Callback × Connector Callback) :=
  match result with
  | .ok callbacks c => some (callbacks, c)
  | .error .retrying _ | .error .outOfBounds _ => none
  | .error _ c => some ([], c)

/-- A call with the answers it received, or the invocation of a callback outside the mutex. -/
inductive Act
  | call (operation : Operation) (answers : List Event)
  | invoke (callback : Callback)

inductive Step (server : Server) (maxBulkSize : Nat) : World → Act → World → Prop
  | call {w : World} {operation : Operation} (fuel : Nat) {callbacks : List Callback}
      {c : Connector Callback}
      (performed : outcome ((operation.perform server maxBulkSize fuel).run w.connector) =
        some (callbacks, c)) :
      Step server maxBulkSize w
        (.call operation (c.events.drop w.connector.events.length))
        { w with connector := c, taken := w.taken ++ callbacks }
  | invoke {w : World} {callback : Callback} (member : callback ∈ w.taken) :
      Step server maxBulkSize w (.invoke callback)
        { w with taken := w.taken.erase callback, invoked := w.invoked ++ [callback] }

/-- Whatever was appended before an invoked callback was registered has been accepted. -/
def World.Sound (w : World) : Prop :=
  ∀ callback ∈ w.invoked, ∀ text ∈ w.connector.appended.take callback.before,
    Accepted w.connector.events text

/-- The flag is not found set while a callback and an operation wait. -/
def Quiet (c : Connector Callback) : Operation → Prop
  | .invokePendingCallbacks => c.shouldNotifyAfterBulk = true → c.notify = [] ∨ c.bulkData = []
  | .timer => c.stopping = true → c.shouldNotifyAfterBulk = true → c.notify = [] ∨ c.bulkData = []
  | _ => True

/-- No answer drops the buffer, and the flag is not found set too early. -/
def Harmless (w : World) : Act → Prop
  | .call operation answers => (∀ e ∈ answers, ¬Drops w.connector e) ∧ Quiet w.connector operation
  | .invoke _ => True

instance (c : Connector Callback) (operation : Operation) : Decidable (Quiet c operation) :=
  match operation with
  | .invokePendingCallbacks => inferInstanceAs (Decidable (_ → _ ∨ _))
  | .timer => inferInstanceAs (Decidable (_ → _ → _ ∨ _))
  | .bulkIndex _ _ _ _ | .bulkDelete _ _ | .deleteByQuery _ _ | .deleteByQueryExceptIds _ _ _
  | .executeUpdateByQuery _ _ | .registerNotify _ | .flush | .stop =>
    inferInstanceAs (Decidable True)

instance (w : World) (act : Act) : Decidable (Harmless w act) :=
  match act with
  | .call _ _ => inferInstanceAs (Decidable (_ ∧ _))
  | .invoke _ => inferInstanceAs (Decidable True)

/-- No operation is lost: each has been accepted or stands whole in the buffer. -/
structure Intact (c : Connector Callback) : Prop where
  nonempty : ∀ text ∈ c.appended, text ≠ []
  bounds : ∀ p ∈ c.boundaries, p ≤ c.bulkData.length
  kept : ∀ text ∈ c.appended, Accepted c.events text ∨ ∃ before after, Aligned c before text after

def Settled (c : Connector Callback) : Prop := ∀ text ∈ c.appended, Accepted c.events text

variable {c c' : Connector Callback} {server : Server} {maxBulkSize fuel : Nat}

theorem Intact.congr (intact : Intact c) (events : c.events <+: c'.events)
    (appended : c'.appended = c.appended) (bulkData : c'.bulkData = c.bulkData)
    (boundaries : c'.boundaries = c.boundaries) : Intact c' := by
  constructor
  · rw [appended]; exact intact.nonempty
  · rw [boundaries, bulkData]; exact intact.bounds
  · rw [appended]
    intro text member
    rcases intact.kept text member with accepted | ⟨before, after, aligned⟩
    · exact .inl (accepted.mono events)
    · exact .inr ⟨before, after, aligned.nonempty, bulkData ▸ aligned.buffer,
        boundaries ▸ aligned.uncut⟩

theorem Intact.settled_of_flushed (intact : Intact c) (events : c.events <+: c'.events)
    (appended : c'.appended = c.appended) (flushed : Flushed c c'.events) : Settled c' := by
  intro text member
  rw [appended] at member
  rcases intact.kept text member with accepted | ⟨before, after, aligned⟩
  · exact accepted.mono events
  · exact flushed before text after aligned

theorem Intact.settled_of_empty (intact : Intact c) (empty : c.bulkData = []) : Settled c :=
  intact.settled_of_flushed List.prefix_rfl rfl (flushed_of_empty empty _)

theorem Settled.intact (intact : Intact c) (appended : c'.appended = c.appended)
    (boundaries : c'.boundaries = []) (settled : Settled c') : Intact c' := by
  constructor
  · rw [appended]; exact intact.nonempty
  · simp [boundaries]
  · exact fun text member => .inl (settled text member)

theorem Held.intact (held : Held c c') (intact : Intact c) : Intact c' :=
  intact.congr held.events held.appended held.bulkData held.boundaries

theorem Sent.settled (sent : Sent c c') (intact : Intact c) : Settled c' :=
  intact.settled_of_flushed sent.events sent.appended sent.flushed

theorem Sent.intact (sent : Sent c c') (intact : Intact c) : Intact c' :=
  (sent.settled intact).intact intact sent.appended sent.boundaries

theorem Kept.intact (kept : Kept c c') (clean : Clean c c') (intact : Intact c) : Intact c' := by
  rcases kept.2 clean with held | sent
  · exact held.intact intact
  · exact sent.intact intact

theorem Intact.write (intact : Intact c) (text : Bytes) : Intact (c.write text) := by
  refine ⟨intact.nonempty, ?_, ?_⟩
  · intro p boundary
    have := intact.bounds p boundary
    simp only [Connector.write, length_append]
    omega
  · intro op member
    rcases intact.kept op member with accepted | ⟨before, after, aligned⟩
    · exact .inl accepted
    · refine .inr ⟨before, after ++ text.map (·, c.appended.length), aligned.nonempty, ?_,
        aligned.uncut⟩
      simp [Connector.write, aligned.buffer]

theorem Intact.append (intact : Intact c) {text : Bytes} (nonempty : text ≠ []) :
    Intact ((c.write text).close text) := by
  have written := intact.write text
  refine ⟨?_, ?_, ?_⟩
  · intro op member
    rcases mem_append.mp member with old | new
    · exact intact.nonempty op old
    · obtain rfl := mem_singleton.mp new
      simpa using nonempty
  · intro p boundary
    rcases mem_append.mp boundary with old | new
    · exact written.bounds p old
    · exact (mem_singleton.mp new).le
  · intro op member
    rcases mem_append.mp member with old | new
    · rcases written.kept op old with accepted | ⟨before, after, aligned⟩
      · exact .inl accepted
      · refine .inr ⟨before, after, aligned.nonempty, aligned.buffer, ?_⟩
        intro p boundary
        rcases mem_append.mp boundary with earlier | last
        · exact aligned.uncut p earlier
        · right
          rw [mem_singleton.mp last, aligned.buffer]
          simp
    · obtain rfl := mem_singleton.mp new
      refine .inr ⟨c.bulkData, [], by simpa using nonempty, ?_, ?_⟩
      · simp [Connector.close, Connector.write]
      · intro p boundary
        rcases mem_append.mp boundary with earlier | last
        · exact .inl (intact.bounds p earlier)
        · right
          rw [mem_singleton.mp last]
          simp [Connector.write]

/-- What a call may do: operations are only added and none is lost, and a callback is handed out
only when every operation has been accepted. -/
structure Progress (c c' : Connector Callback) (callbacks : List Callback) : Prop where
  events : c.events <+: c'.events
  appended : c.appended <+: c'.appended
  intact : Intact c'
  registered : ∀ callback ∈ c'.notify, callback ∈ c.notify ∨ callback.before ≤ c'.appended.length
  given : ∀ callback ∈ callbacks, callback ∈ c.notify ∧ Settled c'

theorem Progress.refl (intact : Intact c) : Progress c c [] :=
  ⟨List.prefix_rfl, List.prefix_rfl, intact, fun _ member => .inl member, by simp⟩

/-- A call that leaves the buffer and registers no callback. -/
theorem Progress.untouched (intact : Intact c) (events : c.events <+: c'.events)
    (appended : c'.appended = c.appended) (bulkData : c'.bulkData = c.bulkData)
    (boundaries : c'.boundaries = c.boundaries) (notify : c'.notify ⊆ c.notify) :
    Progress c c' [] :=
  ⟨events, by rw [appended], intact.congr events appended bulkData boundaries,
    fun _ member => .inl (notify member), by simp⟩

variable {callbacks : List Callback}

theorem Continues.progress (continues : Continues c c') (intact : Intact c')
    (given : ∀ callback ∈ callbacks, callback ∈ c.notify ∧ Settled c') : Progress c c' callbacks :=
  ⟨continues.events, by rw [continues.appended], intact,
    fun _ member => .inl (continues.notify ▸ member), given⟩

theorem Kept.progress (kept : Kept c c') (clean : Clean c c') (intact : Intact c) :
    Progress c c' [] :=
  kept.1.progress (kept.intact clean intact) (by simp)

theorem processBulkIfFull_outcome (intact : Intact c) (size : Nat) :
    Outcome (Connector.processBulkIfFull server maxBulkSize fuel size) c
      (fun _ c' => Continues c c' ∧ (Clean c c' → Intact c')) (fun _ => Kept c) := by
  apply Outcome.get_bind
  split
  · refine (processBulk_outcome c fuel).imp ?_
    rintro _ c' (sent | ⟨_, held⟩)
    · exact ⟨sent.toContinues, fun _ => sent.intact intact⟩
    · exact ⟨held.toContinues, fun _ => held.intact intact⟩
  · exact Outcome.pure ⟨.refl c, fun _ => intact⟩

theorem indexText_ne_nil (id index data version : Bytes) : indexText id index data version ≠ [] :=
  List.append_ne_nil_of_right_ne_nil _ (List.cons_ne_nil _ _)

theorem deleteText_ne_nil (id index : Bytes) : deleteText id index ≠ [] :=
  List.append_ne_nil_of_right_ne_nil _ (List.cons_ne_nil _ _)

theorem append_progress (continues : Continues c c') (intact : Intact c') {text : Bytes}
    (nonempty : text ≠ []) : Progress c ((c'.write text).close text) [] := by
  refine ⟨continues.events, ?_, intact.append nonempty,
    fun _ member => .inl (continues.notify ▸ member), by simp⟩
  rw [← continues.appended]
  exact prefix_append _ _

theorem bulkDelete_outcome (intact : Intact c) (id index : Bytes) :
    Outcome (Connector.bulkDelete server maxBulkSize fuel id index) c
      (fun _ c' => Clean c c' → Progress c c' []) (fun _ c' => Clean c c' → Progress c c' []) := by
  refine require_outcome (fun _ => ?_) (fun _ => .refl intact)
  apply Outcome.bind
  refine (processBulkIfFull_outcome intact _).mono ?_ (fun _ _ kept clean => kept.progress clean intact)
  rintro _ c₁ ⟨continues, intact₁⟩
  exact Outcome.modify fun clean => append_progress continues (intact₁ clean) (deleteText_ne_nil id index)

theorem bulkIndex_outcome (intact : Intact c) (id index data version : Bytes) :
    Outcome (Connector.bulkIndex server maxBulkSize fuel id index data version) c
      (fun _ c' => Clean c c' → Progress c c' []) (fun _ c' => Clean c c' → Progress c c' []) := by
  refine require_outcome (fun _ => ?_) (fun _ => .refl intact)
  apply Outcome.bind
  refine (processBulkIfFull_outcome intact _).mono ?_ (fun _ _ kept clean => kept.progress clean intact)
  rintro _ c₁ ⟨continues, intact₁⟩
  split
  · apply Outcome.modify_bind
    intro clean
    have written : Continues c (c₁.write (indexHead index)) := continues.congr rfl rfl rfl rfl
    exact written.progress ((intact₁ clean).write _) (by simp)
  · exact Outcome.modify fun clean =>
      append_progress continues (intact₁ clean) (indexText_ne_nil id index data version)

/-- Handing out the callbacks where all operations have been accepted, or there are none. -/
theorem takeCallbacks_outcome {c₁ : Connector Callback} (continues : Continues c c₁)
    (intact : Clean c c₁ → Intact c₁)
    (settled : Clean c c₁ → c₁.shouldNotifyAfterBulk = true → c₁.notify = [] ∨ Settled c₁) :
    Outcome Connector.takeCallbacks c₁ (fun callbacks c' => Clean c c' → Progress c c' callbacks)
      (fun _ c' => Clean c c' → Progress c c' []) := by
  apply Outcome.get_bind
  split
  · rename_i flag
    apply Outcome.modify_bind
    intro clean
    refine ⟨continues.events, by rw [continues.appended],
      (intact clean).congr prefix_rfl rfl rfl rfl, by simp, ?_⟩
    intro callback member
    refine ⟨continues.notify ▸ member, ?_⟩
    rcases settled clean flag with none | all
    · rw [none] at member; cases member
    · exact all
  · exact Outcome.pure fun clean => continues.progress (intact clean) (by simp)

theorem flush_outcome (intact : Intact c) :
    Outcome (Connector.flush server fuel) c (fun callbacks c' => Clean c c' → Progress c c' callbacks)
      (fun _ c' => Clean c c' → Progress c c' []) := by
  apply Outcome.modify_bind
  generalize same : { c with shouldNotifyAfterBulk := false } = c₀
  have start : Continues c c₀ := by subst same; exact ⟨prefix_rfl, rfl, rfl, rfl⟩
  have intact₀ : Intact c₀ := by subst same; exact intact.congr prefix_rfl rfl rfl rfl
  have flag₀ : c₀.shouldNotifyAfterBulk = false := by subst same; rfl
  -- Clearing the flag changes nothing that decides which answers drop the buffer.
  have clean_iff : ∀ c', Clean c c' ↔ Clean c₀ c' := by subst same; exact fun _ => Iff.rfl
  have from_start : ∀ {c'}, Continues c₀ c' → Continues c c' := by
    subst same; exact fun h => ⟨h.events, h.appended, h.notify, h.stopping⟩
  apply Outcome.bind
  apply Outcome.get_bind
  split
  · refine (processBulk_outcome c₀ fuel).mono ?_ ?_
    · rintro _ c₁ (sent | ⟨_, held⟩)
      · exact takeCallbacks_outcome (from_start sent.toContinues) (fun _ => sent.intact intact₀)
          (fun _ _ => .inr (sent.settled intact₀))
      · refine takeCallbacks_outcome (from_start held.toContinues) (fun _ => held.intact intact₀) ?_
        intro _ flag
        rw [held.flag, flag₀] at flag
        cases flag
    · intro _ c₁ kept clean
      exact (from_start kept.1).progress (kept.intact ((clean_iff _).mp clean) intact₀) (by simp)
  · refine Outcome.pure (takeCallbacks_outcome start (fun _ => intact₀) ?_)
    intro _ flag
    rw [flag₀] at flag
    cases flag

theorem timer_outcome (intact : Intact c) (quiet : Quiet c .timer) :
    Outcome (Connector.timer server fuel) c (fun callbacks c' => Clean c c' → Progress c c' callbacks)
      (fun _ c' => Clean c c' → Progress c c' []) := by
  apply Outcome.get_bind
  split
  · apply Outcome.bind
    refine (processBulk_outcome c fuel).mono ?_ (fun _ _ kept clean => kept.progress clean intact)
    rintro _ c₁ (sent | ⟨stops, held⟩)
    · exact takeCallbacks_outcome sent.toContinues (fun _ => sent.intact intact)
        (fun _ _ => .inr (sent.settled intact))
    · refine takeCallbacks_outcome held.toContinues (fun _ => held.intact intact) ?_
      intro _ flag
      rw [held.flag] at flag
      rcases quiet stops flag with none | empty
      · exact .inl (held.notify.trans none)
      · exact .inr ((held.intact intact).settled_of_empty (held.bulkData.trans empty))
  · exact Outcome.pure fun _ => .refl intact

/-- An update by query leaves the buffer; it may drop callbacks. -/
theorem updateLoop_outcome {c₁ : Connector Callback} (intact : Intact c) (held : Held c c₁)
    (indexList : List Bytes) (query : String) :
    Outcome (Connector.updateLoop server indexList query fuel) c₁
      (fun _ c' => Progress c c' []) (fun _ c' => Progress c c' []) := by
  have forgotten : ∀ {c₂ : Connector Callback}, Held c c₂ → ∀ flag,
      Progress c { c₂ with notify := [], shouldNotifyAfterBulk := flag } [] := fun held flag =>
    .untouched intact held.events held.appended held.bulkData held.boundaries (by simp)
  induction fuel generalizing c₁ with
  | zero => exact Outcome.throw (held.toContinues.progress (held.intact intact) (by simp))
  | succ fuel ih =>
    apply Outcome.get_bind
    split
    · exact Outcome.bind (Outcome.modify (Outcome.pure (forgotten held c₁.shouldNotifyAfterBulk)))
    · refine getNext_outcome (fun e => ?_) (fun e => ?_)
      swap
      · exact (held.logged e).toContinues.progress ((held.logged e).intact intact) (by simp)
      apply post_outcome
      intro reply
      have logged := (held.logged e).logged (.post (.updateByQuery indexList query) reply)
      cases reply with
      | success response =>
        exact Outcome.modify (.untouched intact logged.events logged.appended logged.bulkData
          logged.boundaries (logged.notify ▸ fun _ h => h))
      | error error status =>
        simp only
        split
        · exact ih logged
        · exact Outcome.bind (Outcome.modify (Outcome.throw (forgotten logged _)))

theorem perform_outcome (intact : Intact c) (operation : Operation) (quiet : Quiet c operation) :
    Outcome (operation.perform server maxBulkSize fuel) c
      (fun callbacks c' => Clean c c' → Progress c c' callbacks)
      (fun _ c' => Clean c c' → Progress c c' []) := by
  cases operation with
  | bulkIndex id index data version =>
    exact Outcome.bind ((bulkIndex_outcome intact id index data version).mono
      (fun _ _ h => Outcome.pure h) (fun _ _ h => h))
  | bulkDelete id index =>
    exact Outcome.bind ((bulkDelete_outcome intact id index).mono
      (fun _ _ h => Outcome.pure h) (fun _ _ h => h))
  | deleteByQuery index agentId | deleteByQueryExceptIds index agentId keepIds =>
    apply Outcome.bind
    refine require_outcome (fun _ => ?_) (fun _ => .refl intact)
    apply Outcome.modify
    exact Outcome.pure fun _ => .untouched intact prefix_rfl rfl rfl rfl (fun _ h => h)
  | executeUpdateByQuery indices query =>
    apply Outcome.bind
    rw [Connector.executeUpdateByQuery]
    split
    · apply Outcome.modify
      exact Outcome.pure fun _ => .untouched intact prefix_rfl rfl rfl rfl (fun _ h => h)
    · exact (updateLoop_outcome intact (.refl c) _ query).mono
        (fun _ _ h => Outcome.pure fun _ => h) (fun _ _ h _ => h)
  | registerNotify id =>
    apply Outcome.get_bind
    apply Outcome.modify_bind
    intro _
    refine ⟨prefix_rfl, prefix_rfl, intact.congr prefix_rfl rfl rfl rfl, ?_, by simp⟩
    intro callback member
    rcases mem_append.mp member with old | new
    · exact .inl old
    · obtain rfl := mem_singleton.mp new
      exact .inr (le_refl _)
  | flush => exact flush_outcome intact
  | invokePendingCallbacks =>
    refine takeCallbacks_outcome (.refl c) (fun _ => intact) ?_
    intro _ flag
    rcases quiet flag with none | empty
    · exact .inl none
    · exact .inr (intact.settled_of_empty empty)
  | timer => exact timer_outcome intact quiet
  | stop =>
    apply Outcome.modify_bind
    exact Outcome.pure fun _ => .untouched intact prefix_rfl rfl rfl rfl (fun _ h => h)

/-- What every harmless run keeps. -/
structure World.Good (w : World) : Prop where
  intact : Intact w.connector
  registered : ∀ callback ∈ w.connector.notify ++ w.taken ++ w.invoked,
    callback.before ≤ w.connector.appended.length
  sound : ∀ callback ∈ w.taken ++ w.invoked,
    ∀ text ∈ w.connector.appended.take callback.before, Accepted w.connector.events text

theorem initial_good : World.initial.Good where
  intact := ⟨by simp [World.initial], by simp [World.initial], by simp [World.initial]⟩
  registered := by simp [World.initial]
  sound := by simp [World.initial]

/-- A call that ended left what it is known to leave. -/
theorem outcome_met {action : Connector.Action Callback (List Callback)}
    {Q : List Callback → Connector Callback → Prop} (result : Outcome action c Q (fun _ => Q []))
    (performed : outcome (action.run c) = some (callbacks, c')) : Q callbacks c' := by
  cases ran : action.run c with
  | ok value c₁ =>
    rw [ran] at performed
    obtain ⟨rfl, rfl⟩ : value = callbacks ∧ c₁ = c' := by simpa [outcome] using performed
    exact result.of_ok ran
  | error e c₁ =>
    rw [ran] at performed
    obtain ⟨rfl, rfl⟩ : [] = callbacks ∧ c₁ = c' := by
      cases e with
      | connectorException | noServer => simpa [outcome] using performed
      | outOfBounds | retrying => simp [outcome] at performed
    exact result.of_error ran

theorem outcome_progress {w : World} (good : w.Good) {operation : Operation}
    (performed : outcome ((operation.perform server maxBulkSize fuel).run w.connector) =
      some (callbacks, c)) (clean : Clean w.connector c) (quiet : Quiet w.connector operation) :
    Progress w.connector c callbacks :=
  outcome_met (perform_outcome good.intact operation quiet) performed clean

theorem step_good {w w' : World} {act : Act}
    (step : Meeting Harmless (Step server maxBulkSize) w act w') (good : w.Good) : w'.Good := by
  obtain ⟨harmless, step⟩ := step
  cases step with
  | @call operation fuel callbacks c performed =>
    have progress := outcome_progress good performed harmless.1 harmless.2
    have grows := progress.appended.length_le
    have before : ∀ callback ∈ w.connector.notify ++ w.taken ++ w.invoked,
        callback.before ≤ c.appended.length := fun callback member =>
      (good.registered callback member).trans grows
    refine ⟨progress.intact, ?_, ?_⟩
    · intro callback member
      simp only [mem_append] at member before
      rcases member with (registered | old | new) | invoked
      · rcases progress.registered callback registered with kept | fresh
        · exact before callback (.inl (.inl kept))
        · exact fresh
      · exact before callback (.inl (.inr old))
      · exact before callback (.inl (.inl (progress.given callback new).1))
      · exact before callback (.inr invoked)
    · intro callback member text appended
      -- A callback handed out before this call saw only operations appended before it.
      have earlier : callback ∈ w.taken ++ w.invoked → Accepted c.events text := by
        intro old
        have bound := good.registered callback (by
          simp only [mem_append] at old ⊢; tauto)
        obtain ⟨more, same⟩ := progress.appended
        rw [← same, take_append_of_le_length bound] at appended
        exact (good.sound callback old text appended).mono progress.events
      simp only [mem_append] at member earlier
      rcases member with (old | new) | invoked
      · exact earlier (.inl old)
      · exact (progress.given callback new).2 text (mem_of_mem_take appended)
      · exact earlier (.inr invoked)
  | @invoke callback member =>
    have known : ∀ other ∈ w.taken.erase callback ++ (w.invoked ++ [callback]),
        other ∈ w.taken ++ w.invoked := by
      intro other among
      simp only [mem_append, mem_singleton] at among ⊢
      rcases among with left | old | rfl
      · exact .inl (mem_of_mem_erase left)
      · exact .inr old
      · exact .inl member
    refine ⟨good.intact, ?_, fun other among => good.sound other (known other among)⟩
    intro other among
    rw [append_assoc] at among
    rcases mem_append.mp among with registered | handed
    · exact good.registered other (by simp [registered])
    · have := known other handed
      exact good.registered other (by simp only [mem_append] at this ⊢; tauto)

/-- **A callback is invoked only after what was appended before it was accepted**, in every run
whose answers never make the connector drop a buffer with operations in it and in which the flag
is never found set while both a callback and an operation wait. -/
theorem callbacks_follow_acceptance (server : Server) (maxBulkSize : Nat) {acts : List Act}
    {w : World} (run : Steps (Meeting Harmless (Step server maxBulkSize)) .initial acts w) :
    w.Sound := by
  have good : w.Good := run.invariant step_good initial_good
  intro callback member
  exact good.sound callback (by simp [member])

def Event.isPost : Event → Bool
  | .post _ _ => true
  | .getNext _ => false

/-- The first request fails, all later ones are accepted. -/
def failingFirst : Server where
  available := fun _ => true
  reply := fun events _ => if events.any Event.isPost then .accepted else .error "failed" 500

/-- The calls in order, if each of them ends and meets the check. -/
def World.run (check : World → Act → Bool) (server : Server) (maxBulkSize : Nat) :
    World → List Operation → Option World
  | w, [] => some w
  | w, operation :: rest =>
    match outcome ((operation.perform server maxBulkSize 3).run w.connector) with
    | some (callbacks, c) =>
      if check w (.call operation (c.events.drop w.connector.events.length)) then
        World.run check server maxBulkSize
          { w with connector := c, taken := w.taken ++ callbacks } rest
      else none
    | none => none

/-- The calls in order, and then the invocation of a callback they handed out. -/
def World.runThen (check : World → Act → Bool) (server : Server) (maxBulkSize : Nat)
    (operations : List Operation) (callback : Callback) : Option World :=
  (World.run check server maxBulkSize .initial operations).bind fun w =>
    if callback ∈ w.taken ∧ check w (.invoke callback) then
      some { w with taken := w.taken.erase callback, invoked := w.invoked ++ [callback] }
    else none

section Run

variable {check : World → Act → Bool} (ok : World → Act → Prop)

variable {operations : List Operation}

theorem run_steps (checked : ∀ w act, check w act = true → ok w act)
    {w₀ w w' : World} {acts : List Act}
    (start : Steps (Meeting ok (Step server maxBulkSize)) w₀ acts w)
    (ran : World.run check server maxBulkSize w operations = some w') :
    ∃ acts', Steps (Meeting ok (Step server maxBulkSize)) w₀ acts' w' := by
  induction operations generalizing w acts with
  | nil =>
    cases ran
    exact ⟨acts, start⟩
  | cons operation rest ih =>
    simp only [World.run] at ran
    split at ran
    · rename_i callbacks c performed
      split at ran
      · rename_i met
        exact ih (start.snoc ⟨checked _ _ met, .call 3 performed⟩) ran
      · cases ran
    · cases ran

theorem runThen_steps (checked : ∀ w act, check w act = true → ok w act)
    {callback : Callback} {w : World}
    (ran : World.runThen check server maxBulkSize operations callback = some w) :
    ∃ acts, Steps (Meeting ok (Step server maxBulkSize)) .initial acts w := by
  obtain ⟨w₁, first, last⟩ := Option.bind_eq_some_iff.mp ran
  obtain ⟨acts, steps⟩ := run_steps ok checked .nil first
  split at last
  · rename_i met
    cases last
    exact ⟨_, steps.snoc ⟨checked _ _ met.2, .invoke met.1⟩⟩
  · cases last

end Run

/-- Whether the text was accepted, computed from the exchange. -/
def isAccepted (events : List Event) (text : Text) : Bool :=
  events.any fun e => e.acceptedBody.any fun body => decide (text <:+: body)

theorem isAccepted_of_accepted {events : List Event} {text : Text}
    (accepted : Accepted events text) : isAccepted events text = true := by
  obtain ⟨body, response, member, valid, part⟩ := accepted
  refine any_eq_true.mpr ⟨_, member, ?_⟩
  simp [Event.acceptedBody, valid, part]

/-- A callback was invoked and an operation appended before it has not been accepted. -/
def World.early (w : World) : Bool :=
  w.invoked.any fun callback =>
    (w.connector.appended.take callback.before).any fun text => !isAccepted w.connector.events text

theorem not_sound_of_early {w : World} (early : w.early = true) : ¬w.Sound := by
  intro sound
  obtain ⟨callback, member, found⟩ := any_eq_true.mp early
  obtain ⟨text, appended, missing⟩ := any_eq_true.mp found
  have := isAccepted_of_accepted (sound callback member text appended)
  simp [this] at missing

theorem early_run {callback : Callback}
    (ran : (World.runThen (fun _ _ => true) server maxBulkSize operations callback).map
      World.early = some true) :
    ∃ acts w, Steps (Step server maxBulkSize) .initial acts w ∧ ¬w.Sound := by
  obtain ⟨w, reached, early⟩ := Option.map_eq_some_iff.mp ran
  obtain ⟨acts, steps⟩ := runThen_steps (fun _ _ => True) (fun _ _ _ => trivial) reached
  exact ⟨acts, w, steps.mono fun step => step.2, not_sound_of_early early⟩

def indexOne (id : String) : Operation := .bulkIndex id.toList ['i'] ['d'] []

/-- An operation is appended and a callback registered; a failed flush drops the operation and
keeps the callback, which the next successful flush releases. -/
def droppedRun : Option World :=
  World.runThen (fun _ _ => true) failingFirst (10 * 1024 * 1024)
    [indexOne "a", .registerNotify 0, .flush, indexOne "b", .flush] ⟨0, 1⟩

/-- The second operation does not fit: the first is sent and the flag set. The callback registered
for both is then released while the second operation is still in the buffer. -/
def overflowRun : Option World :=
  World.runThen (fun _ _ => true) .accepting 100
    [indexOne "a", indexOne "b", .registerNotify 0, .invokePendingCallbacks] ⟨0, 2⟩

theorem callback_invoked_early :
    (∃ acts w, Steps (Step failingFirst (10 * 1024 * 1024)) .initial acts w ∧ ¬w.Sound) ∧
    (∃ acts w, Steps (Step .accepting 100) .initial acts w ∧ ¬w.Sound) := by
  have dropped : droppedRun.map World.early = some true := by decide
  have overflow : overflowRun.map World.early = some true := by decide
  exact ⟨early_run dropped, early_run overflow⟩

/-- The same calls without a failure, each of them harmless. -/
def flushedRun : Option World :=
  World.runThen (fun w act => decide (Harmless w act)) .accepting 100
    [indexOne "a", .registerNotify 0, .flush] ⟨0, 1⟩

theorem callbacks_follow_acceptance_flush :
    ∃ acts w, Steps (Meeting Harmless (Step .accepting 100)) .initial acts w ∧
      w.invoked = [⟨0, 1⟩] ∧ w.Sound := by
  have ends : flushedRun.map World.invoked = some [⟨0, 1⟩] := by decide
  obtain ⟨w, reached, invoked⟩ := Option.map_eq_some_iff.mp ends
  obtain ⟨acts, run⟩ := runThen_steps Harmless (fun _ _ met => of_decide_eq_true met) reached
  exact ⟨acts, w, run, invoked, callbacks_follow_acceptance .accepting 100 run⟩

end GuardSarm.Indexer
