import GuardSarm.Lib.Table

/-! The agent's persistent queue: one SQLite table, five statements. Rows are
kept in rowid order, so an insert appends. Every operation acts on each id by
itself; `find_submitOrCoalesce`, `find_removeAllSynced`, `find_resetAllSyncing`
and `find_fetchAndMarkForSync` say how. -/
namespace GuardSarm.Queue

inductive Operation
  | create
  | modify
  | delete
  | noOp
  deriving DecidableEq, Repr

inductive SyncStatus
  | pending
  | syncing
  | syncingUpdated
  deriving DecidableEq, Repr

inductive CreateStatus
  | existing
  | new
  | newDeleted
  deriving DecidableEq, Repr

structure PersistedData where
  seq : Nat := 0
  id : String
  index : String
  data : String
  operation : Operation
  version : Nat
  isDataContext : Bool := false
  deriving DecidableEq, Repr

/-- A row of `persistent_queue`. -/
structure Row where
  id : String
  idx : String
  data : String
  operation : Operation
  version : Nat
  syncStatus : SyncStatus := .pending
  createStatus : CreateStatus := .existing
  operationSyncing : Operation := .noOp
  isDataContext : Bool := false
  deriving DecidableEq, Repr

/-- `id TEXT PRIMARY KEY`. -/
abbrev Storage := Table Row.id

/-- The `UPDATE` statement of `submitOrCoalesce`. -/
def Row.coalesced (old : Row) (newData : PersistedData) (createStatus : CreateStatus) : Row :=
  { old with
    idx := newData.index
    data := newData.data
    operation := newData.operation
    version := newData.version
    syncStatus := if old.syncStatus = .pending then .pending else .syncingUpdated
    createStatus := createStatus
    operationSyncing :=
      if old.syncStatus ≠ .pending then
        if old.operationSyncing = .noOp then old.operation else old.operationSyncing
      else .noOp
    isDataContext := newData.isDataContext }

/-- The `INSERT` statement of `submitOrCoalesce`. -/
def Row.inserted (newData : PersistedData) : Row :=
  { id := newData.id
    idx := newData.index
    data := newData.data
    operation := newData.operation
    version := newData.version
    createStatus := if newData.operation = .create then .new else .existing
    isDataContext := newData.isDataContext }

def submitOrCoalesce (t : Storage) (newData : PersistedData) : Storage :=
  match t.find newData.id with
  | none => t.insert (.inserted newData)
  | some old =>
    if newData.operation = .delete then
      if old.createStatus = .new ∧ old.syncStatus = .pending then
        t.deleteWhere fun r => r.id = newData.id
      else
        let newCreateStatus :=
          if old.createStatus = .new then .newDeleted else old.createStatus
        t.updateWhere (fun r => r.id = newData.id) (·.coalesced newData newCreateStatus)
          fun _ => rfl
    else
      let newCreateStatus := if old.createStatus = .newDeleted then .new else old.createStatus
      t.updateWhere (fun r => r.id = newData.id) (·.coalesced newData newCreateStatus)
        fun _ => rfl

def Row.persisted (r : Row) : PersistedData :=
  { id := r.id, index := r.idx, data := r.data, operation := r.operation, version := r.version,
    isDataContext := r.isDataContext }

/-- The fetched rows and the table after they were marked. -/
def fetchAndMarkForSync (t : Storage) : List PersistedData × Storage :=
  ((t.select fun r => r.syncStatus = .pending).map Row.persisted,
    t.updateWhere (fun r => r.syncStatus = .pending) (fun r => { r with syncStatus := .syncing })
      fun _ => rfl)

def removeAllSynced (t : Storage) : Storage :=
  (t.deleteWhere fun r => r.syncStatus = .syncing ∨ (r.createStatus = .newDeleted ∧
      (r.operationSyncing = .noOp ∨ r.operationSyncing = .delete))).updateWhere
    (fun r => r.syncStatus = .syncing ∨ r.syncStatus = .syncingUpdated)
    (fun r => { r with
      syncStatus := .pending, createStatus := .existing, operationSyncing := .noOp })
    fun _ => rfl

def resetAllSyncing (t : Storage) : Storage :=
  (t.updateWhere (fun r => r.syncStatus = .syncing ∨ r.syncStatus = .syncingUpdated)
    (fun r => { r with syncStatus := .pending, operationSyncing := .noOp })
    fun _ => rfl).deleteWhere fun r => r.operation = .delete ∧ r.createStatus = .newDeleted

/-! ## What each statement does to one id -/

/-- The row of an id after a submit for that id. -/
def coalesce (old : Option Row) (newData : PersistedData) : Option Row :=
  match old with
  | none => some (.inserted newData)
  | some old =>
    if newData.operation = .delete then
      if old.createStatus = .new ∧ old.syncStatus = .pending then none
      else some (old.coalesced newData
        (if old.createStatus = .new then .newDeleted else old.createStatus))
    else some (old.coalesced newData
      (if old.createStatus = .newDeleted then .new else old.createStatus))

theorem find_submitOrCoalesce (t : Storage) (d : PersistedData) (k : String) :
    (submitOrCoalesce t d).find k = if k = d.id then coalesce (t.find k) d else t.find k := by
  by_cases same : k = d.id
  · subst same
    rw [if_pos rfl]
    unfold submitOrCoalesce coalesce
    cases found : t.find d.id with
    | none => exact (Table.find_insert found _).trans (if_pos rfl)
    | some old =>
      have atId := Table.find_key found
      simp only
      split_ifs <;> simp [Table.find_deleteWhere, Table.find_updateWhere, found, atId]
  · rw [if_neg same]
    have other : ∀ r, t.find k = some r → r.id ≠ d.id :=
      fun r found eq => same ((Table.find_key found).symm.trans eq)
    unfold submitOrCoalesce
    cases atId : t.find d.id with
    | none => exact (Table.find_insert atId _).trans (if_neg same)
    | some old =>
      simp only
      cases found : t.find k with
      | none => split_ifs <;> simp [Table.find_deleteWhere, Table.find_updateWhere, found]
      | some r =>
        have ne := other r found
        split_ifs <;> simp [Table.find_deleteWhere, Table.find_updateWhere, found, ne]

/-- A row once its batch is confirmed. -/
def Row.synced (r : Row) : Option Row :=
  match r.syncStatus with
  | .syncing => none
  | .syncingUpdated =>
    if r.createStatus = .newDeleted ∧
        (r.operationSyncing = .noOp ∨ r.operationSyncing = .delete) then none
    else some { r with
      syncStatus := .pending, createStatus := .existing, operationSyncing := .noOp }
  | .pending =>
    if r.createStatus = .newDeleted ∧
        (r.operationSyncing = .noOp ∨ r.operationSyncing = .delete) then none
    else some r

theorem find_removeAllSynced (t : Storage) (k : String) :
    (removeAllSynced t).find k = (t.find k).bind Row.synced := by
  rw [removeAllSynced, Table.find_updateWhere, Table.find_deleteWhere]
  cases t.find k with
  | none => rfl
  | some r =>
    obtain ⟨_, _, _, _, _, syncStatus, createStatus, operationSyncing, _⟩ := r
    cases syncStatus <;> cases createStatus <;> cases operationSyncing <;> rfl

/-- A row once its batch is given up. -/
def Row.reset (r : Row) : Option Row :=
  let r' := if r.syncStatus = .pending then r
    else { r with syncStatus := .pending, operationSyncing := .noOp }
  if r.operation = .delete ∧ r.createStatus = .newDeleted then none else some r'

theorem find_resetAllSyncing (t : Storage) (k : String) :
    (resetAllSyncing t).find k = (t.find k).bind Row.reset := by
  rw [resetAllSyncing, Table.find_deleteWhere, Table.find_updateWhere]
  cases t.find k with
  | none => rfl
  | some r =>
    obtain ⟨_, _, _, operation, _, syncStatus, createStatus, _, _⟩ := r
    cases operation <;> cases syncStatus <;> cases createStatus <;> rfl

theorem find_fetchAndMarkForSync (t : Storage) (k : String) :
    (fetchAndMarkForSync t).2.find k = (t.find k).map fun r =>
      if r.syncStatus = .pending then { r with syncStatus := .syncing } else r := by
  simp [fetchAndMarkForSync, Table.find_updateWhere]

theorem mem_fetchAndMarkForSync (t : Storage) (d : PersistedData) : d ∈ (fetchAndMarkForSync t).1 ↔
      ∃ r, t.find d.id = some r ∧ r.syncStatus = .pending ∧ r.persisted = d := by
  simp only [fetchAndMarkForSync, List.mem_map, Table.mem_select_iff, decide_eq_true_eq]
  constructor
  · rintro ⟨r, ⟨found, pending⟩, rfl⟩
    exact ⟨r, found, pending, rfl⟩
  · rintro ⟨r, found, pending, rfl⟩
    exact ⟨r, ⟨found, pending⟩, rfl⟩

end GuardSarm.Queue
