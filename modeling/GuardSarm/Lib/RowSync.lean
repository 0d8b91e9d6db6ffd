import Mathlib

/-!
# A transaction that brings a table in line with given rows

Given rows are put in or written over one after another. Rows of the table
that none of them names are deleted at the end. The transaction reports what
was inserted, modified and deleted, under a key the last report only.

* `lookup_syncRow`, `lookup_sync`: what the transaction does at a key is
  decided by the rows given for that key;
* `syncOne_last`, `syncOne_unreported`, `syncOne_reported`: what the rows
  given for a key come to.
-/

namespace GuardSarm.RowSync

open List

variable {Key Row Data : Type} [DecidableEq Key]

inductive Returned where
  | inserted | modified | deleted
  deriving DecidableEq

structure Delta (Row : Type) where
  returned : Returned
  row : Row
  deriving DecidableEq

structure Columns (Key Row Data : Type) where
  key : Data → Key
  fresh : Data → Row
  agrees : Row → Data → Bool
  merge : Row → Data → Row
  agrees_fresh : ∀ d, agrees (fresh d) d = true
  agrees_merge : ∀ row d, agrees (merge row d) d = true

abbrev Rows (Key Row : Type) := AList fun _ : Key => Row

variable (cols : Columns Key Row Data)

def syncRow (state : Rows Key Row × Rows Key (Delta Row)) (d : Data) :
    Rows Key Row × Rows Key (Delta Row) :=
  match state.1.lookup (cols.key d) with
  | none => (state.1.insert (cols.key d) (cols.fresh d),
      state.2.insert (cols.key d) ⟨.inserted, cols.fresh d⟩)
  | some row =>
    if cols.agrees row d then state
    else (state.1.insert (cols.key d) (cols.merge row d),
      state.2.insert (cols.key d) ⟨.modified, cols.merge row d⟩)

def given (data : List Data) (k : Key) : List Data := data.filter fun d => cols.key d = k

def deletedRows (table : Rows Key Row) (data : List Data) : List (Sigma fun _ : Key => Row) :=
  table.entries.filter fun entry => (given cols data entry.1).isEmpty

/-- The whole transaction: the table and the reports. -/
def syncTxn (table : Rows Key Row) (data : List Data) : Rows Key Row × Rows Key (Delta Row) :=
  let synced := data.foldl (syncRow cols) (table, ∅)
  (deletedRows cols table data).foldl
    (fun state entry => (state.1.erase entry.1, state.2.insert entry.1 ⟨.deleted, entry.2⟩)) synced

def syncOne (state : Option Row × Option (Delta Row)) (d : Data) : Option Row × Option (Delta Row) :=
  match state.1 with
  | none => (some (cols.fresh d), some ⟨.inserted, cols.fresh d⟩)
  | some row =>
    if cols.agrees row d then state
    else (some (cols.merge row d), some ⟨.modified, cols.merge row d⟩)

def entryAt (state : Rows Key Row × Rows Key (Delta Row)) (k : Key) : Option Row × Option (Delta Row) :=
  (state.1.lookup k, state.2.lookup k)

variable {cols} {table : Rows Key Row} {data : List Data} {k : Key}

theorem lookup_syncRow (state : Rows Key Row × Rows Key (Delta Row)) (d : Data) :
    entryAt (syncRow cols state d) k =
      if cols.key d = k then syncOne cols (entryAt state k) d else entryAt state k := by
  unfold syncRow
  by_cases here : cols.key d = k
  · subst here
    rw [if_pos rfl]
    unfold syncOne entryAt
    cases found : state.1.lookup (cols.key d) with
    | none => simp
    | some row =>
      simp only
      split
      · simp [found]
      · simp
  · have other : k ≠ cols.key d := fun same => here same.symm
    rw [if_neg here]
    unfold entryAt
    split
    · simp [AList.lookup_insert_ne other]
    · split
      · rfl
      · simp [AList.lookup_insert_ne other]

theorem lookup_sync (state : Rows Key Row × Rows Key (Delta Row)) :
    entryAt (data.foldl (syncRow cols) state) k = (given cols data k).foldl (syncOne cols) (entryAt state k) := by
  induction data generalizing state with
  | nil => rfl
  | cons d data ih =>
    rw [foldl_cons, ih, lookup_syncRow]
    by_cases here : cols.key d = k
    · simp [here, given]
    · simp [here, given]

theorem lookup_delete (entries : List (Sigma fun _ : Key => Row))
    (state : Rows Key Row × Rows Key (Delta Row)) (distinct : (entries.map Sigma.fst).Nodup) :
    entryAt (entries.foldl (fun state entry =>
        (state.1.erase entry.1, state.2.insert entry.1 ⟨.deleted, entry.2⟩)) state) k =
      match List.dlookup k entries with
      | none => entryAt state k
      | some row => (none, some ⟨.deleted, row⟩) := by
  induction entries generalizing state with
  | nil => rfl
  | cons entry entries ih =>
    obtain ⟨key, row⟩ := entry
    obtain ⟨fresh, rest⟩ := nodup_cons.mp distinct
    rw [foldl_cons, ih _ rest]
    by_cases here : k = key
    · subst here
      have missing : List.dlookup k entries = none := dlookup_eq_none.mpr fresh
      simp [missing, entryAt]
    · rw [dlookup_cons_ne _ _ here]
      cases List.dlookup k entries with
      | none => simp [entryAt, AList.lookup_insert_ne here, AList.lookup_erase_ne here]
      | some _ => rfl

theorem dlookup_filter (l : List (Sigma fun _ : Key => Row)) (keep : Key → Bool) :
    List.dlookup k (l.filter fun entry => keep entry.1) =
      if keep k then List.dlookup k l else none := by
  induction l with
  | nil => simp
  | cons entry l ih =>
    obtain ⟨key, row⟩ := entry
    rw [filter_cons]
    by_cases here : k = key
    · subst here
      cases kept : keep k with
      | true => simp
      | false => simp [kept, ih]
    · rw [dlookup_cons_ne _ _ here]
      split
      · rw [dlookup_cons_ne _ _ here, ih]
      · exact ih

theorem deletedRows_nodup : ((deletedRows cols table data).map Sigma.fst).Nodup :=
  table.keys_nodup.sublist (List.filter_sublist.map Sigma.fst)

/-- The rows given for a key decide what becomes of it. -/
theorem syncTxn_given (table : Rows Key Row) (some_row : given cols data k ≠ []) :
    (syncTxn cols table data).1.lookup k =
        ((given cols data k).foldl (syncOne cols) (table.lookup k, none)).1 ∧
      (syncTxn cols table data).2.lookup k =
        ((given cols data k).foldl (syncOne cols) (table.lookup k, none)).2 := by
  suffices entryAt (syncTxn cols table data) k =
      (given cols data k).foldl (syncOne cols) (table.lookup k, none) from Prod.mk_inj.mp this
  have kept : List.dlookup k (deletedRows cols table data) = none := by
    rw [deletedRows, dlookup_filter table.entries fun key => (given cols data key).isEmpty]
    simp [some_row]
  rw [syncTxn, lookup_delete _ _ deletedRows_nodup, kept]
  exact lookup_sync _

/-- A row of the table that nothing is given for is deleted. -/
theorem syncTxn_absent (table : Rows Key Row) (no_row : given cols data k = []) :
    (syncTxn cols table data).1.lookup k = none ∧
      (syncTxn cols table data).2.lookup k = (table.lookup k).map (Delta.mk .deleted) := by
  suffices entryAt (syncTxn cols table data) k =
      (none, (table.lookup k).map (Delta.mk .deleted)) from Prod.mk_inj.mp this
  have gone : List.dlookup k (deletedRows cols table data) = table.lookup k := by
    rw [deletedRows, dlookup_filter table.entries fun key => (given cols data key).isEmpty]
    simp [no_row, AList.lookup]
  rw [syncTxn, lookup_delete _ _ deletedRows_nodup, gone]
  cases found : table.lookup k with
  | none =>
    simp only [lookup_sync, no_row, foldl_nil, Option.map_none]
    simp [entryAt, found]
  | some row => rfl

section one

variable {start : Option Row} {ds : List Data}

omit [DecidableEq Key] in
theorem syncOne_last {d : Data} (last : ds.getLast? = some d) {report : Option (Delta Row)} :
    ∃ row, (ds.foldl (syncOne cols) (start, report)).1 = some row ∧ cols.agrees row d = true := by
  obtain ⟨front, rfl⟩ := getLast?_eq_some_iff.mp last
  rw [foldl_append, foldl_cons, foldl_nil, syncOne]
  split
  · exact ⟨_, rfl, cols.agrees_fresh d⟩
  · rename_i row found
    split
    · rename_i agrees
      exact ⟨row, found, agrees⟩
    · exact ⟨_, rfl, cols.agrees_merge row d⟩

omit [DecidableEq Key] in
/-- A row without a report is the old one, and all that was given agrees with it. -/
theorem syncOne_unreported (some_row : ds ≠ [])
    (unreported : (ds.foldl (syncOne cols) (start, none)).2 = none) :
    ∃ row, start = some row ∧ (ds.foldl (syncOne cols) (start, none)).1 = some row ∧
      ∀ d ∈ ds, cols.agrees row d = true := by
  induction ds using List.reverseRecOn with
  | nil => exact absurd rfl some_row
  | append_singleton front d ih =>
    rw [foldl_append, foldl_cons, foldl_nil, syncOne] at unreported ⊢
    split at unreported
    · cases unreported
    · rename_i row found
      split at unreported
      · rename_i agrees
        rw [if_pos agrees]
        by_cases first : front = []
        · subst first
          exact ⟨row, found, found, by simpa using agrees⟩
        · obtain ⟨row', same, found', all⟩ := ih first unreported
          obtain rfl : row' = row := Option.some.inj (found'.symm.trans found)
          refine ⟨row', same, found', fun e mem => ?_⟩
          rcases mem_append.mp mem with mem | mem
          · exact all e mem
          · rw [mem_singleton.mp mem]
            exact agrees
      · cases unreported

omit [DecidableEq Key] in
/-- A row with a report is the one reported, and it is not reported as deleted. -/
theorem syncOne_reported {delta : Delta Row}
    (reported : (ds.foldl (syncOne cols) (start, none)).2 = some delta) :
    (ds.foldl (syncOne cols) (start, none)).1 = some delta.row ∧ delta.returned ≠ .deleted := by
  induction ds using List.reverseRecOn generalizing delta with
  | nil => cases reported
  | append_singleton front d ih =>
    rw [foldl_append, foldl_cons, foldl_nil, syncOne] at reported ⊢
    split at reported
    · cases reported
      exact ⟨rfl, nofun⟩
    · rename_i row found
      split at reported
      · rename_i agrees
        rw [if_pos agrees]
        exact ih reported
      · rename_i differs
        cases reported
        rw [if_neg differs]
        exact ⟨rfl, nofun⟩

end one

theorem syncTxn_present (table : Rows Key Row) (some_row : given cols data k ≠ []) :
    ((syncTxn cols table data).1.lookup k).isSome := by
  obtain ⟨d, last⟩ := Option.ne_none_iff_exists'.mp (mt getLast?_eq_none_iff.mp some_row)
  obtain ⟨row, found, _⟩ := syncOne_last last
  rw [(syncTxn_given table some_row).1, found]
  rfl

end GuardSarm.RowSync
