import GuardSarm.Lib.Steps
import GuardSarm.Queue.Storage

/-! When the queue drops an item without sending a delete. A journal beside the
table records, for each id, what was returned by a fetch and what became of it;
the calls come in any order, as after a lost EndAck or a restart. -/
namespace GuardSarm.Queue

open Option

/-- The traffic of one id. `inFlight` is the operation of the row returned by a
fetch that has neither been confirmed nor given up. -/
structure Journal where
  last : Option Operation := none
  inFlight : Option Operation := none
  /-- A DELETE was returned by some fetch. -/
  deleteSent : Bool := false
  /-- A CREATE or MODIFY was returned since the last confirmed DELETE. -/
  sent : Bool := false
  /-- One of those was confirmed. -/
  confirmed : Bool := false
  /-- A CREATE or MODIFY was confirmed since the present row was inserted. -/
  rowConfirmed : Bool := false
  deriving DecidableEq, Repr

def Operation.upserts (op : Operation) : Bool := op = .create ∨ op = .modify

namespace Journal

def submitted (j : Journal) (op : Operation) (inserted : Bool) : Journal :=
  { j with last := some op, rowConfirmed := j.rowConfirmed && !inserted }

def fetched (j : Journal) (op : Operation) : Journal :=
  { j with
    inFlight := some op
    deleteSent := j.deleteSent || op = .delete
    sent := j.sent || op.upserts }

/-- A fetch returns the row when it is pending. -/
def returned (j : Journal) : Option Row → Journal
  | some r => if r.syncStatus = .pending then j.fetched r.operation else j
  | none => j

def removed (j : Journal) : Journal :=
  match j.inFlight with
  | none => j
  | some op =>
    if op = .delete then { j with inFlight := none, sent := false, confirmed := false }
    else { j with
      inFlight := none
      confirmed := j.confirmed || op.upserts
      rowConfirmed := j.rowConfirmed || op.upserts }

def reset (j : Journal) : Journal := { j with inFlight := none }

end Journal

inductive Call
  | submitOrCoalesce (d : PersistedData)
  | fetchAndMarkForSync
  | removeAllSynced
  | resetAllSyncing

structure Ledger where
  storage : Storage
  journal : String → Journal

def Ledger.initial : Ledger := ⟨.empty, fun _ => {}⟩

def Ledger.call (s : Ledger) : Call → Ledger
  | .submitOrCoalesce d =>
    { storage := Queue.submitOrCoalesce s.storage d
      journal := Function.update s.journal d.id
        ((s.journal d.id).submitted d.operation (s.storage.find d.id).isNone) }
  | .fetchAndMarkForSync =>
    { storage := (Queue.fetchAndMarkForSync s.storage).2
      journal := fun id => (s.journal id).returned (s.storage.find id) }
  | .removeAllSynced =>
    { storage := Queue.removeAllSynced s.storage, journal := fun id => (s.journal id).removed }
  | .resetAllSyncing =>
    { storage := Queue.resetAllSyncing s.storage, journal := fun id => (s.journal id).reset }

def Ledger.Step (s : Ledger) (c : Call) (t : Ledger) : Prop := t = s.call c

/-- The call is a DELETE submit of that id, or a reset. -/
def Call.mayElide (id : String) : Call → Prop
  | .submitOrCoalesce d => d.operation = .delete ∧ d.id = id
  | .resetAllSyncing => True
  | _ => False

def Ledger.Elides (s : Ledger) (c : Call) (id : String) : Prop :=
  c.mayElide id ∧ s.storage.find id ≠ none ∧ (s.call c).storage.find id = none

/-! ## What the statuses say about the traffic -/

/-- A row that is still marked as created on the agent. -/
def Row.isNew (r : Row) : Prop := r.createStatus = .new ∨ r.createStatus = .newDeleted

/-- The statuses of a row against the journal of its id. -/
structure Row.Noted (r : Row) (j : Journal) : Prop where
  last : j.last = some r.operation
  pending : r.syncStatus = .pending → j.inFlight = none ∧ r.operationSyncing = .noOp
  syncing : r.syncStatus = .syncing → j.inFlight = some r.operation ∧ r.operationSyncing = .noOp
  updated : r.syncStatus = .syncingUpdated →
    ∃ op, j.inFlight = some op ∧ (op ≠ .noOp → r.operationSyncing = op)
  new : r.isNew → j.rowConfirmed = false

def Noted (row : Option Row) (j : Journal) : Prop :=
  match row with
  | none => j.inFlight = none
  | some r => r.Noted j

variable {row : Option Row} {j : Journal}

theorem noted_submit (d : PersistedData) (h : Noted row j) :
    Noted (coalesce row d) (j.submitted d.operation row.isNone) := by
  cases row with
  | none =>
    exact ⟨rfl, fun _ => ⟨h, rfl⟩, fun eq => by simp [Row.inserted] at eq,
      fun eq => by simp [Row.inserted] at eq, fun _ => by simp [Journal.submitted]⟩
  | some r =>
    obtain ⟨last, pending, syncing, updated, new⟩ := h
    unfold coalesce
    cases status : r.syncStatus <;>
      grind [Noted, Row.Noted, Row.coalesced, Row.isNew, Journal.submitted]

theorem noted_fetch (h : Noted row j) :
    Noted (row.map fun r =>
        if r.syncStatus = .pending then { r with syncStatus := .syncing } else r)
      (j.returned row) := by
  cases row with
  | none => exact h
  | some r =>
    obtain ⟨last, pending, syncing, updated, new⟩ := h
    by_cases waiting : r.syncStatus = .pending
    · simp only [map_some, Journal.returned, waiting, ↓reduceIte]
      exact ⟨last, by simp, fun _ => ⟨rfl, (pending waiting).2⟩, by simp, new⟩
    · simp only [map_some, Journal.returned, waiting, ↓reduceIte]
      exact ⟨last, pending, syncing, updated, new⟩

theorem removed_inFlight (j : Journal) : j.removed.inFlight = none := by
  unfold Journal.removed
  split
  · assumption
  · split_ifs <;> rfl

theorem removed_last (j : Journal) : j.removed.last = j.last := by
  unfold Journal.removed
  split
  · rfl
  · split_ifs <;> rfl

theorem removed_of_idle (idle : j.inFlight = none) : j.removed = j := by
  simp [Journal.removed, idle]

theorem noted_removeAllSynced (h : Noted row j) : Noted (row.bind Row.synced) j.removed := by
  cases row with
  | none => exact removed_inFlight j
  | some r =>
    simp only [bind_some, Row.synced]
    cases status : r.syncStatus with
    | pending =>
      rw [removed_of_idle (h.pending status).1]
      split_ifs
      · exact (h.pending status).1
      · exact h
    | syncing => exact removed_inFlight j
    | syncingUpdated =>
      simp only
      split_ifs
      · exact removed_inFlight j
      · exact ⟨by rw [removed_last]; exact h.last, fun _ => ⟨removed_inFlight j, rfl⟩,
          by simp, by simp, by simp [Row.isNew]⟩

theorem noted_resetAllSyncing (h : Noted row j) : Noted (row.bind Row.reset) j.reset := by
  cases row with
  | none => rfl
  | some r =>
    simp only [bind_some, Row.reset]
    split_ifs with elided pending
    · rfl
    · exact ⟨h.last, fun _ => ⟨rfl, (h.pending pending).2⟩, by simp [pending],
        by simp [pending], h.new⟩
    · exact ⟨h.last, fun _ => ⟨rfl, rfl⟩, by simp, by simp, h.new⟩

def Ledger.Noted (s : Ledger) : Prop := ∀ id, Queue.Noted (s.storage.find id) (s.journal id)

theorem call_noted {s t : Ledger} {c : Call} (step : s.Step c t) (h : s.Noted) : t.Noted := by
  subst step
  intro id
  cases c with
  | submitOrCoalesce d =>
    simp only [Ledger.call, find_submitOrCoalesce]
    by_cases same : id = d.id
    · subst same
      simpa using noted_submit d (h d.id)
    · simpa [same] using h id
  | fetchAndMarkForSync =>
    simp only [Ledger.call, find_fetchAndMarkForSync]
    exact noted_fetch (h id)
  | removeAllSynced =>
    simp only [Ledger.call, find_removeAllSynced]
    exact noted_removeAllSynced (h id)
  | resetAllSyncing =>
    simp only [Ledger.call, find_resetAllSyncing]
    exact noted_resetAllSyncing (h id)

/-- Only a row still marked as created on the agent is dropped unsent. -/
theorem elides_new {s : Ledger} {c : Call} {id : String} (h : s.Elides c id) :
    ∃ r, s.storage.find id = some r ∧ r.isNew := by
  obtain ⟨may, present, gone⟩ := h
  obtain ⟨r, row⟩ := ne_none_iff_exists'.mp present
  refine ⟨r, row, ?_⟩
  cases c with
  | submitOrCoalesce d =>
    obtain ⟨delete, rfl⟩ := may
    simp only [Ledger.call, find_submitOrCoalesce, ↓reduceIte, row, coalesce, delete] at gone
    split_ifs at gone with elided
    exact Or.inl elided.1
  | resetAllSyncing =>
    simp only [Ledger.call, find_resetAllSyncing, row, bind_some, Row.reset] at gone
    split_ifs at gone with elided
    exact Or.inr elided.2
  | fetchAndMarkForSync => exact may.elim
  | removeAllSynced => exact may.elim

/-! ## Creates of absent items -/

def lastOperation (calls : List Call) (id : String) : Option Operation :=
  calls.foldl (fun last c => match c with
    | .submitOrCoalesce d => if d.id = id then some d.operation else last
    | _ => last) none

/-- Every CREATE was submitted for an id never submitted before or last deleted. -/
def CreatesAbsent (calls : List Call) : Prop :=
  ∀ before d after, calls = before ++ .submitOrCoalesce d :: after → d.operation = .create →
    lastOperation before d.id = none ∨ lastOperation before d.id = some .delete

variable {calls : List Call}

theorem CreatesAbsent.init {c : Call} (h : CreatesAbsent (calls ++ [c])) : CreatesAbsent calls :=
  fun before d after eq => h before d (after ++ [c]) (by simp [eq])

theorem last_eq_lastOperation {s : Ledger}
    (run : Steps Ledger.Step .initial calls s) (id : String) :
    (s.journal id).last = lastOperation calls id := by
  refine run.history (P := fun calls s => (s.journal id).last = lastOperation calls id) ?_ rfl
  rintro calls s c _ rfl same
  rw [lastOperation, List.foldl_append, ← lastOperation, ← same]
  cases c with
  | submitOrCoalesce d =>
    by_cases eq : d.id = id
    · subst eq; simp [Ledger.call, Journal.submitted]
    · simp [Ledger.call, eq, Function.update_of_ne (Ne.symm eq)]
  | fetchAndMarkForSync =>
    simp only [Ledger.call, List.foldl_cons, List.foldl_nil, Journal.returned]
    split
    · split_ifs <;> rfl
    · rfl
  | removeAllSynced => exact removed_last _
  | resetAllSyncing => rfl

/-- A row still marked as created, and an absent item, were not confirmed to the
manager since its last confirmed delete. -/
def Unconfirmed (row : Option Row) (j : Journal) : Prop :=
  match row with
  | none => j.last = none ∨ j.last = some .delete → j.confirmed = false
  | some r => r.isNew → j.confirmed = false

theorem unconfirmed_submit {d : PersistedData} (h : Unconfirmed row j)
    (absent : d.operation = .create → j.last = none ∨ j.last = some .delete) :
    Unconfirmed (coalesce row d) (j.submitted d.operation row.isNone) := by
  cases row with
  | none =>
    intro new
    apply h
    apply absent
    by_contra other
    simp [Row.isNew, Row.inserted, other] at new
  | some r =>
    simp only [coalesce]
    split_ifs with delete elided created deleted
    · exact fun _ => h (Or.inl elided.1)
    · exact fun _ => h (Or.inl created)
    · exact h
    · exact fun _ => h (Or.inr deleted)
    · exact h

theorem unconfirmed_removeAllSynced (noted : Noted row j)
    (h : Unconfirmed row j) : Unconfirmed (row.bind Row.synced) j.removed := by
  cases row with
  | none => rw [removed_of_idle noted]; exact h
  | some r =>
    simp only [bind_some, Row.synced]
    cases status : r.syncStatus with
    | pending =>
      rw [removed_of_idle (noted.pending status).1]
      split_ifs with elided
      · exact fun _ => h (Or.inr elided.1)
      · exact h
    | syncing =>
      -- The confirmed row was the item's last submit, so an absent item was a sent delete.
      intro last
      rw [removed_last, noted.last] at last
      have delete : r.operation = .delete := by simpa using last
      simp [Journal.removed, (noted.syncing status).1, delete]
    | syncingUpdated =>
      simp only
      split_ifs with elided
      · intro _
        obtain ⟨op, inFlight, same⟩ := noted.updated status
        have unconfirmed := h (Or.inr elided.1)
        have notUpsert : op.upserts = false := by
          cases op with
          | delete | noOp => rfl
          | create | modify =>
            have syncing := same (by simp)
            rcases elided.2 with noOp | delete
            · simp [noOp] at syncing
            · simp [delete] at syncing
        simp only [Journal.removed, inFlight]
        split_ifs
        · rfl
        · simp [unconfirmed, notUpsert]
      · exact fun new => by simp [Row.isNew] at new

theorem unconfirmed_resetAllSyncing
    (h : Unconfirmed row j) : Unconfirmed (row.bind Row.reset) j.reset := by
  cases row with
  | none => exact h
  | some r =>
    simp only [bind_some, Row.reset]
    split_ifs with elided
    · exact fun _ => h (Or.inr elided.2)
    · exact h
    · exact h

theorem unconfirmed_fetch (h : Unconfirmed row j) :
    Unconfirmed (row.map fun r =>
        if r.syncStatus = .pending then { r with syncStatus := .syncing } else r)
      (j.returned row) := by
  cases row with
  | none => exact h
  | some r =>
    by_cases waiting : r.syncStatus = .pending <;>
      simpa [Journal.returned, waiting, Unconfirmed, Row.isNew, Journal.fetched] using h

theorem run_unconfirmed {s : Ledger}
    (run : Steps Ledger.Step .initial calls s) (absent : CreatesAbsent calls) (id : String) :
    Unconfirmed (s.storage.find id) (s.journal id) := by
  induction run with
  | nil => exact fun _ => rfl
  | @snoc calls s c _ run step ih =>
    subst step
    have before := ih absent.init
    have noted : s.Noted := run.invariant call_noted fun _ => rfl
    cases c with
    | submitOrCoalesce d =>
      simp only [Ledger.call, find_submitOrCoalesce]
      by_cases same : id = d.id
      · subst same
        have create := absent calls d [] rfl
        rw [← last_eq_lastOperation run] at create
        simpa using unconfirmed_submit before create
      · simpa [same] using before
    | fetchAndMarkForSync =>
      simp only [Ledger.call, find_fetchAndMarkForSync]
      exact unconfirmed_fetch before
    | removeAllSynced =>
      simp only [Ledger.call, find_removeAllSynced]
      exact unconfirmed_removeAllSynced (noted id) before
    | resetAllSyncing =>
      simp only [Ledger.call, find_resetAllSyncing]
      exact unconfirmed_resetAllSyncing before

/-- **A delete is elided only for an item the manager never confirmed.** Whatever
the calls, the row was not confirmed since it was inserted; where only absent
items are created, nothing of the id was confirmed since its last confirmed delete. -/
theorem elided_delete_unconfirmed {calls : List Call} {s : Ledger} {c : Call} {id : String}
    (run : Steps Ledger.Step .initial calls s) (elides : s.Elides c id) :
    (s.journal id).rowConfirmed = false ∧
    (CreatesAbsent calls → (s.journal id).confirmed = false) := by
  obtain ⟨r, row, new⟩ := elides_new elides
  have ledger : s.Noted := run.invariant call_noted fun _ => rfl
  have noted := ledger id
  rw [row] at noted
  refine ⟨noted.new new, fun absent => ?_⟩
  have unconfirmed := run_unconfirmed run absent id
  rw [row] at unconfirmed
  exact unconfirmed new

def package : PersistedData :=
  { id := "pkg", index := "idx", data := "v1", operation := .create, version := 1 }

def dropPackage : Call := .submitOrCoalesce { package with operation := .delete }

/-- The package was created and fetched, and its session given up. -/
def givenUp : Ledger :=
  ((Ledger.initial.call (.submitOrCoalesce package)).call .fetchAndMarkForSync).call
    .resetAllSyncing

/-- The package was created, fetched and confirmed, and then created once more. -/
def createdTwice : Ledger :=
  (((Ledger.initial.call (.submitOrCoalesce package)).call .fetchAndMarkForSync).call
    .removeAllSynced).call (.submitOrCoalesce package)

theorem givenUp_run : Steps Ledger.Step .initial
    [.submitOrCoalesce package, .fetchAndMarkForSync, .resetAllSyncing] givenUp :=
  ((Steps.single rfl).snoc rfl).snoc rfl

theorem givenUp_elides : givenUp.Elides dropPackage "pkg" :=
  ⟨⟨rfl, rfl⟩, by decide, by decide⟩

/-- No DELETE was ever fetched and the delete is elided, though a fetch returned
the CREATE: its session was given up and may have reached the manager, or it was
confirmed and the item created a second time. -/
theorem elided_delete_was_sent : Steps Ledger.Step .initial
      [.submitOrCoalesce package, .fetchAndMarkForSync, .resetAllSyncing] givenUp ∧
    Steps Ledger.Step .initial [.submitOrCoalesce package, .fetchAndMarkForSync,
      .removeAllSynced, .submitOrCoalesce package] createdTwice ∧
    (givenUp.Elides dropPackage "pkg" ∧ (givenUp.journal "pkg").deleteSent = false ∧
      (givenUp.journal "pkg").sent = true) ∧
    (createdTwice.Elides dropPackage "pkg" ∧ (createdTwice.journal "pkg").deleteSent = false ∧
      (createdTwice.journal "pkg").confirmed = true) :=
  ⟨givenUp_run, (((Steps.single rfl).snoc rfl).snoc rfl).snoc rfl,
    ⟨givenUp_elides, by decide, by decide⟩, ⟨⟨rfl, rfl⟩, by decide, by decide⟩, by decide,
    by decide⟩

theorem elided_delete_unconfirmed_givenUp : (givenUp.journal "pkg").rowConfirmed = false ∧
    (CreatesAbsent [.submitOrCoalesce package, .fetchAndMarkForSync, .resetAllSyncing] →
      (givenUp.journal "pkg").confirmed = false) :=
  elided_delete_unconfirmed givenUp_run givenUp_elides

end GuardSarm.Queue
