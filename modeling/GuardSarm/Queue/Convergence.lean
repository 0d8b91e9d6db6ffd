import GuardSarm.Lib.Steps
import GuardSarm.Queue.Storage

/-! The queue brings the manager up to date, whatever order submits and
sessions come in. `Tracks` relates one id's row, its entry in the batch being
sent, the manager's document and the agent's item; every step of the queue
keeps it for every id (`step_tracks`). -/
namespace GuardSarm.Queue

open List Option

/-- What a submit or a fetched row leaves on the manager. -/
def PersistedData.document (d : PersistedData) : Option String :=
  if d.operation = .delete then none else some d.data

def Row.document (r : Row) : Option String :=
  if r.operation = .delete then none else some r.data

/-- CREATE/MODIFY as upsert and DELETE as delete, in the order of the batch. -/
def applyBatch (manager : String → Option String) (batch : List PersistedData) :
    String → Option String :=
  batch.foldl (fun m d => Function.update m d.id d.document) manager

def entry (batch : List PersistedData) (id : String) : Option PersistedData :=
  batch.find? fun d => d.id = id

/-- The manager's document of an id after a batch with that entry for it. -/
def received (doc : Option String) : Option PersistedData → Option String
  | some d => d.document
  | none => doc

theorem applyBatch_eq (batch : List PersistedData) (distinct : (batch.map (·.id)).Nodup)
    (manager : String → Option String) (id : String) :
    applyBatch manager batch id = received (manager id) (entry batch id) := by
  induction batch generalizing manager with
  | nil => rfl
  | cons d rest ih =>
    obtain ⟨absent, distinct⟩ := nodup_cons.mp distinct
    have tail := ih distinct (Function.update manager d.id d.document)
    simp only [applyBatch, foldl_cons] at tail ⊢
    rw [tail]
    by_cases same : d.id = id
    · have none : entry rest id = none := by
        apply find?_eq_none.mpr
        intro x member eq
        exact absent (mem_map.mpr ⟨x, member, by simpa [same] using eq⟩)
      have head : entry (d :: rest) id = some d := by simp [entry, same]
      rw [none, head]
      simp [received, ← same]
    · have skip : entry (d :: rest) id = entry rest id := by simp [entry, same]
      rw [skip]
      cases entry rest id with
      | none => simp [received, Function.update_of_ne (Ne.symm same)]
      | some x => rfl

theorem fetch_distinct (t : Storage) : ((fetchAndMarkForSync t).1.map (·.id)).Nodup := by
  have ids : (fetchAndMarkForSync t).1.map (·.id) =
      (t.select fun r => r.syncStatus = .pending).map Row.id := by
    simp [fetchAndMarkForSync, Row.persisted]
  rw [ids]
  exact t.unique.sublist (filter_sublist.map Row.id)

theorem entry_fetch (t : Storage) (id : String) : entry (fetchAndMarkForSync t).1 id =
      (t.find id).bind fun r => if r.syncStatus = .pending then some r.persisted else none := by
  cases found : entry (fetchAndMarkForSync t).1 id with
  | some d =>
    have member := mem_of_find?_eq_some found
    have atId : d.id = id := by simpa using find?_some found
    obtain ⟨r, row, pending, rfl⟩ := (mem_fetchAndMarkForSync t d).mp member
    rw [atId] at row
    simp [row, pending]
  | none =>
    have absent := find?_eq_none.mp found
    cases row : t.find id with
    | none => rfl
    | some r =>
      by_cases pending : r.syncStatus = .pending
      · have atId := Table.find_key row
        have member : r.persisted ∈ (fetchAndMarkForSync t).1 :=
          (mem_fetchAndMarkForSync t _).mpr ⟨r, by rw [← row, ← atId]; rfl, pending, rfl⟩
        exact absurd (decide_eq_true atId) (absent _ member)
      · simp [pending]

/-! ## Runs -/

/-- `batch` holds the rows of the session in progress and is empty between sessions. -/
structure World where
  storage : Storage
  manager : String → Option String
  item : String → Option String
  batch : List PersistedData

namespace World

def initial : World := ⟨.empty, fun _ => none, fun _ => none, []⟩

def submit (s : World) (d : PersistedData) : World :=
  { s with
    storage := submitOrCoalesce s.storage d
    item := Function.update s.item d.id d.document }

def fetch (s : World) : World :=
  { s with
    storage := (fetchAndMarkForSync s.storage).2
    batch := (fetchAndMarkForSync s.storage).1 }

/-- The end of `synchronizeModule`; with nothing fetched it returned before. -/
def finish (s : World) (success : Bool) : World :=
  if s.batch = [] then s
  else if success then
    { s with
      storage := removeAllSynced s.storage
      manager := applyBatch s.manager s.batch
      batch := [] }
  else { s with storage := resetAllSyncing s.storage, batch := [] }

end World

/-- CREATE when the agent's item is absent, MODIFY or DELETE when it is present. -/
def WellFormed (item : Option String) : Operation → Prop
  | .create => item = none
  | .modify | .delete => item ≠ none
  | .noOp => False

instance (item : Option String) : (op : Operation) → Decidable (WellFormed item op)
  | .create => inferInstanceAs (Decidable (item = none))
  | .modify | .delete => inferInstanceAs (Decidable (item ≠ none))
  | .noOp => inferInstanceAs (Decidable False)

inductive Act
  | submit (d : PersistedData)
  | fetch
  | finish (success : Bool)

inductive Step : World → Act → World → Prop
  | submit (s : World) (d : PersistedData) (history : WellFormed (s.item d.id) d.operation) :
      Step s (.submit d) (s.submit d)
  | fetch (s : World) (idle : s.batch = []) : Step s .fetch s.fetch
  | finish (s : World) (success : Bool) : Step s (.finish success) (s.finish success)

/-- The data of the last submit for an id; none for a DELETE or no submit. -/
def lastSubmit (acts : List Act) (id : String) : Option String :=
  acts.foldl (fun last a => match a with
    | .submit d => if d.id = id then d.document else last
    | _ => last) none

/-! ## The invariant of one id -/

/-- A row created on the agent and not confirmed yet is unknown to the manager,
and is never kept as a delete. -/
structure Unsent (r : Row) (doc : Option String) : Prop where
  absent : doc = none
  kept : r.operation ≠ .delete

/-- How a row relates to the entry of its id in the batch and to the manager's document. -/
def Row.Tracks (r : Row) (sent : Option PersistedData) (doc : Option String) : Prop :=
  match r.syncStatus with
  | .pending => sent = none ∧ r.operationSyncing = .noOp ∧ r.createStatus ≠ .newDeleted ∧
      (r.createStatus = .new → Unsent r doc)
  | .syncing => sent = some r.persisted ∧ r.operationSyncing = .noOp ∧
      r.createStatus ≠ .newDeleted ∧ (r.createStatus = .new → Unsent r doc)
  | .syncingUpdated => ∃ d, sent = some d ∧ r.operationSyncing = d.operation ∧ d.operation ≠ .noOp ∧
      (r.createStatus = .new → Unsent r doc ∧ d.operation ≠ .delete) ∧
      (r.createStatus = .newDeleted → doc = none ∧ r.operation = .delete ∧ d.operation ≠ .delete)

def Tracks (row : Option Row) (sent : Option PersistedData) (doc item : Option String) : Prop :=
  match row with
  | none => sent = none ∧ doc = item
  | some r => r.document = item ∧ r.operation ≠ .noOp ∧ r.Tracks sent doc

variable {doc item : Option String} {sent : Option PersistedData} {row : Option Row}

theorem tracks_submit
    {d : PersistedData} (h : Tracks row sent doc item) (history : WellFormed item d.operation) :
    Tracks (coalesce row d) sent doc d.document := by
  have op : d.operation ≠ .noOp := by
    intro eq
    rw [eq] at history
    exact history
  cases row with
  | none =>
    obtain ⟨unsent, same⟩ := h
    refine ⟨rfl, op, unsent, rfl, ?_, ?_⟩
    · simp only [Row.inserted]
      split <;> simp
    · intro new
      have create : d.operation = .create := by
        by_contra other
        simp [Row.inserted, other] at new
      rw [create] at history
      exact ⟨same.trans history, by simp [Row.inserted, create]⟩
  | some r =>
    obtain ⟨document, rop, tracks⟩ := h
    unfold Row.Tracks at tracks
    unfold coalesce
    cases status : r.syncStatus <;> simp only [status] at tracks <;>
      grind [Tracks, Row.Tracks, Row.coalesced, Row.document, PersistedData.document, WellFormed,
        Row.persisted, Unsent]

theorem Tracks.pending {r : Row} (h : Tracks (some r) none doc item) : r.syncStatus = .pending := by
  obtain ⟨_, _, tracks⟩ := h
  unfold Row.Tracks at tracks
  cases status : r.syncStatus with
  | pending => rfl
  | syncing => simp [status] at tracks
  | syncingUpdated => simp [status] at tracks

theorem tracks_fetch
    (h : Tracks row none doc item) :
    Tracks (row.map fun r =>
        if r.syncStatus = .pending then { r with syncStatus := .syncing } else r)
      (row.bind fun r => if r.syncStatus = .pending then some r.persisted else none)
      doc item := by
  cases row with
  | none => exact h
  | some r =>
    have pending := h.pending
    obtain ⟨document, op, tracks⟩ := h
    simp only [Row.Tracks, pending] at tracks
    obtain ⟨_, quiet, kept, new⟩ := tracks
    simp only [map_some, bind_some, pending, ↓reduceIte]
    exact ⟨document, op, rfl, quiet, kept, fun eq => ⟨(new eq).absent, (new eq).kept⟩⟩

theorem tracks_removeAllSynced (h : Tracks row sent doc item) :
    Tracks (row.bind Row.synced) none (received doc sent) item := by
  cases row with
  | none => exact ⟨rfl, by rw [h.1]; exact h.2⟩
  | some r =>
    obtain ⟨document, op, tracks⟩ := h
    unfold Row.Tracks at tracks
    simp only [bind_some, Row.synced]
    cases status : r.syncStatus with
    | pending =>
      obtain ⟨rfl, quiet, kept, new⟩ := by simpa only [status] using tracks
      simp only [if_neg (fun elided => kept (And.left elided))]
      exact ⟨document, op, by simpa [Row.Tracks, status] using ⟨quiet, kept, new⟩⟩
    | syncing =>
      -- The batch held this very row, so the manager now has the agent's item.
      obtain ⟨rfl, -⟩ := by simpa only [status] using tracks
      exact ⟨rfl, document⟩
    | syncingUpdated =>
      obtain ⟨d, rfl, syncing, notNoOp, -, elided⟩ := by simpa only [status] using tracks
      have stays : ¬(r.createStatus = .newDeleted ∧
          (r.operationSyncing = .noOp ∨ r.operationSyncing = .delete)) := by
        rintro ⟨newDeleted, noOp | delete⟩
        · exact notNoOp (syncing.symm.trans noOp)
        · exact (elided newDeleted).2.2 (syncing.symm.trans delete)
      simp only [if_neg stays]
      exact ⟨document, op, by simp [Row.Tracks]⟩

theorem tracks_resetAllSyncing (h : Tracks row sent doc item) :
    Tracks (row.bind Row.reset) none doc item := by
  cases row with
  | none => exact ⟨rfl, h.2⟩
  | some r =>
    obtain ⟨document, op, tracks⟩ := h
    unfold Row.Tracks at tracks
    simp only [bind_some, Row.reset]
    cases status : r.syncStatus <;> simp only [status] at tracks <;>
      grind [Tracks, Row.Tracks, Row.document, Unsent]

/-! ## The invariant of the system -/

structure World.Tracked (s : World) : Prop where
  distinct : (s.batch.map (·.id)).Nodup
  tracks : ∀ id, Tracks (s.storage.find id) (entry s.batch id) (s.manager id) (s.item id)

theorem initial_tracked : World.initial.Tracked :=
  ⟨List.nodup_nil, fun _ => ⟨rfl, rfl⟩⟩

variable {s : World}

theorem fetch_tracked (h : s.Tracked) (idle : s.batch = []) : s.fetch.Tracked := by
  refine ⟨fetch_distinct _, fun id => ?_⟩
  have before := h.tracks id
  rw [idle] at before
  simp only [World.fetch, find_fetchAndMarkForSync, entry_fetch]
  exact tracks_fetch before

theorem finish_tracked (h : s.Tracked) (success : Bool) : (s.finish success).Tracked := by
  unfold World.finish
  split_ifs with idle
  · exact h
  · refine ⟨nodup_nil, fun id => ?_⟩
    simp only [find_removeAllSynced, applyBatch_eq _ h.distinct]
    exact tracks_removeAllSynced (h.tracks id)
  · refine ⟨nodup_nil, fun id => ?_⟩
    simp only [find_resetAllSyncing]
    exact tracks_resetAllSyncing (h.tracks id)

theorem step_tracked {s t : World} {a : Act} (step : Step s a t) (h : s.Tracked) : t.Tracked := by
  cases step with
  | submit d history =>
    refine ⟨h.distinct, fun id => ?_⟩
    simp only [World.submit, find_submitOrCoalesce]
    by_cases same : id = d.id
    · subst same
      simpa using tracks_submit (h.tracks d.id) history
    · simpa [same] using h.tracks id
  | fetch idle => exact fetch_tracked h idle
  | finish success => exact finish_tracked h success

theorem item_eq_lastSubmit {acts : List Act} (run : Steps Step .initial acts s)
    (id : String) : s.item id = lastSubmit acts id := by
  refine run.history (P := fun acts s => s.item id = lastSubmit acts id) ?_ rfl
  intro acts s a t step same
  rw [lastSubmit, foldl_append, ← lastSubmit, ← same]
  cases step with
  | submit d history =>
    by_cases eq : d.id = id
    · subst eq; simp [World.submit]
    · simp [World.submit, eq, Function.update_of_ne (Ne.symm eq)]
  | fetch idle => rfl
  | finish success =>
    simp only [World.finish, foldl_cons, foldl_nil]
    split_ifs <;> rfl

theorem finish_idle (s : World) (success : Bool) : (s.finish success).batch = [] := by
  unfold World.finish
  split_ifs with idle
  · exact idle
  · rfl
  · rfl

/-- A session that takes every pending row and succeeds leaves nothing behind. -/
theorem fetch_finish_find (h : s.Tracked) (idle : s.batch = []) (id : String) :
    (s.fetch.finish true).storage.find id = none := by
  have pending : ∀ r, s.storage.find id = some r → r.syncStatus = .pending := by
    intro r row
    have tracks := h.tracks id
    rw [idle, row] at tracks
    exact tracks.pending
  simp only [World.finish, ↓reduceIte]
  split_ifs with nothing
  · cases row : s.storage.find id with
    | none => simp [World.fetch, find_fetchAndMarkForSync, row]
    | some r =>
      have found : entry s.fetch.batch id = some r.persisted := by
        simp [World.fetch, entry_fetch, row, pending r row]
      rw [nothing] at found
      cases found
  · simp only [find_removeAllSynced, World.fetch, find_fetchAndMarkForSync]
    cases row : s.storage.find id with
    | none => rfl
    | some r => simp [pending r row, Row.synced]

theorem fetch_finish_item (s : World) (success : Bool) : (s.fetch.finish success).item = s.item := by
  unfold World.finish
  split_ifs <;> rfl

/-- **The pending rows bring the manager up to date.** In every reachable state,
once the session in progress, if any, ended either way, one more fetch and a
successful session with no submit in between empty the table, and the manager
then holds the data of the last submit for every id. -/
theorem pending_rows_converge {acts : List Act} {s : World} (run : Steps Step .initial acts s)
    (success : Bool) : (((s.finish success).fetch.finish true).storage.rows = []) ∧
    ∀ id, ((s.finish success).fetch.finish true).manager id = lastSubmit acts id := by
  have tracked : (s.finish success).Tracked :=
    finish_tracked (run.invariant step_tracked initial_tracked) success
  have idle := finish_idle s success
  have empty := fetch_finish_find tracked idle
  refine ⟨Table.rows_eq_nil_of_find empty, fun id => ?_⟩
  have settled := (finish_tracked (fetch_tracked tracked idle) true).tracks id
  rw [empty id] at settled
  rw [settled.2, fetch_finish_item, ← item_eq_lastSubmit run]
  unfold World.finish
  split_ifs <;> rfl

/-- An item created, fetched, deleted while its session runs, and synced twice. -/
theorem pending_rows_converge_deleted :
    let create : PersistedData :=
      { id := "pkg", index := "idx", data := "v1", operation := .create, version := 1 }
    let delete : PersistedData := { create with operation := .delete, version := 2 }
    let s := ((World.initial.submit create).fetch.submit delete).finish true
    ((s.finish true).fetch.finish true).storage.rows = [] ∧
    ∀ id, ((s.finish true).fetch.finish true).manager id =
      lastSubmit [.submit create, .fetch, .submit delete, .finish true] id := by
  intro create delete s
  have h₁ : Steps Step .initial [.submit create] (World.initial.submit create) :=
    .single (.submit _ _ rfl)
  have h₂ := h₁.snoc (.fetch _ rfl)
  have h₃ := h₂.snoc (.submit _ delete (by decide))
  exact pending_rows_converge (h₃.snoc (.finish _ true)) true

end GuardSarm.Queue
