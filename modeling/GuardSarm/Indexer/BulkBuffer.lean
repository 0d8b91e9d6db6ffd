import GuardSarm.Indexer.Acknowledgement
import GuardSarm.Indexer.Splitting

/-!
# The bulk buffer over whole runs

The buffer is the texts of the operations that wait in it, and the boundaries
are their ends. Three branches of the code break this or what follows from it:
`bulkIndex` refuses a version without an id after it has written the head of
the operation; a delete-by-query error clears the buffer and not the
boundaries; and the retry flag of a 429 is still set after a 413 has emptied
the buffer, so that the loop posts an empty body.

* `processBulk_proper`, `perform_proper`: what one call does with the buffer.
-/

namespace GuardSarm.Indexer

open List

open Segments

variable {κ : Type}

/-- A delete-by-query request was refused with an error that is not passed over. -/
def Event.refusedDelete : Event → Bool
  | .post (.deleteByQuery _ _) (.error _ status)
  | .post (.deleteByQueryExceptIds _ _ _) (.error _ status) =>
    !decide (status = 404 ∨ status = 409 ∨ status = 429)
  | _ => false

/-- The whole buffer was answered with 429. -/
def Event.busy (c : Connector κ) : Event → Bool
  | .post (.bulk body) (.error _ status) => decide (body = c.bulkData ∧ status = 429)
  | _ => false

/-- The whole buffer was answered with 413 and is split. -/
def Event.tooLarge (c : Connector κ) : Event → Bool
  | .post (.bulk body) (.error _ status) =>
    decide (body = c.bulkData ∧ status = 413 ∧ 1 < c.boundaries.length)
  | _ => false

/-- No delete-by-query fails over a buffer with operations, and no 413 follows a 429. -/
def Orderly (c : Connector κ) (answers : List Event) : Prop :=
  (c.bulkData ≠ [] → ∀ e ∈ answers, e.refusedDelete = false) ∧
    answers.Pairwise fun e e' => ¬(e.busy c = true ∧ e'.tooLarge c = true)

instance (c : Connector κ) (answers : List Event) : Decidable (Orderly c answers) :=
  inferInstanceAs (Decidable (_ ∧ _))

/-- The buffer holds the last of the appended operations. -/
def Represented (c : Connector κ) : Prop :=
  ∃ operations, operations <:+ c.appended ∧ Buffered c operations

/-- What was exchanged since `c`. -/
def newEvents (c c' : Connector κ) : List Event := c'.events.drop c.events.length

def Filled (events : List Event) : Prop := ∀ e ∈ events, e.bulkBody ≠ some []

/-- A call kept the representation and posted no empty body. -/
structure Proper (c c' : Connector κ) : Prop where
  events : c.events <+: c'.events
  represented : Represented c'
  filled : Filled (newEvents c c')

variable {c₀ c c' : Connector κ} {server : Server} {fuel : Nat} {data : Text}
  {boundaries : List Nat}

theorem newEvents_log (longer : c₀.events <+: c.events) (e : Event) :
    newEvents c₀ (c.log e) = newEvents c₀ c ++ [e] :=
  List.drop_append_of_le_length longer.length_le

theorem newEvents_trans (first : c₀.events <+: c.events) (second : c.events <+: c'.events) :
    newEvents c₀ c' = newEvents c₀ c ++ newEvents c c' := by
  obtain ⟨events, same⟩ := first
  obtain ⟨events', same'⟩ := second
  simp [newEvents, ← same', ← same]

theorem Filled.append {events events' : List Event} (first : Filled events)
    (second : Filled events') : Filled (events ++ events') := fun e member =>
  (List.mem_append.mp member).elim (first e) (second e)

/-- Positions at which the buffer is cut. -/
structure Cuts (c : Connector κ) (boundaries : List Nat) : Prop where
  increasing : boundaries.Pairwise (· < ·)
  bounds : ∀ p ∈ boundaries, 0 < p ∧ p ≤ c.bulkData.length

theorem Cuts.sublist (cuts : Cuts c boundaries) {part : List Nat}
    (sub : part.Sublist boundaries) : Cuts c part :=
  ⟨cuts.increasing.sublist sub, fun p member => cuts.bounds p (sub.subset member)⟩

theorem Cuts.congr (cuts : Cuts c₀ c₀.boundaries) (held : Held c₀ c) : Cuts c c.boundaries := by
  rw [held.boundaries]
  exact ⟨cuts.increasing, held.bulkData ▸ cuts.bounds⟩

/-- The position of a split lies inside the buffer: a later one follows it. -/
theorem Cuts.middle (cuts : Cuts c boundaries) (several : 1 < boundaries.length) :
    0 < boundaries.getD (boundaries.length / 2 - 1) 0 ∧
      boundaries.getD (boundaries.length / 2 - 1) 0 < c.bulkData.length := by
  have before : boundaries.length / 2 - 1 < boundaries.length - 1 := by omega
  have later := pairwise_iff_getElem.mp cuts.increasing (boundaries.length / 2 - 1)
    (boundaries.length - 1) (by omega) (by omega) before
  have last := cuts.bounds _ (getElem_mem (l := boundaries) (n := boundaries.length - 1)
    (by omega))
  rw [getD_eq_getElem _ _ (by omega)]
  exact ⟨(cuts.bounds _ (getElem_mem (by omega))).1, by omega⟩

theorem Buffered.cuts {operations : List Text} (buffered : Buffered c operations) :
    Cuts c c.boundaries := by
  obtain ⟨increasing, bounds⟩ := endsFrom_increasing 0 buffered.nonempty
  rw [← ends, ← buffered.boundaries] at increasing bounds
  refine ⟨increasing, fun p member => ?_⟩
  rw [buffered.bulkData]
  simpa using bounds p member

/-- The buffer is as it was and no empty body was posted. -/
structure Posting (c₀ c : Connector κ) : Prop extends Held c₀ c where
  filled : Filled (newEvents c₀ c)

/-- The buffer was cleared and no empty body was posted. -/
structure Emptied (c₀ c : Connector κ) : Prop extends Continues c₀ c where
  bulkData : c.bulkData = []
  boundaries : c.boundaries = []
  filled : Filled (newEvents c₀ c)

theorem Posting.refl (c : Connector κ) : Posting c c :=
  ⟨.refl c, by simp [Filled, newEvents]⟩

theorem Posting.logged (posting : Posting c₀ c) {e : Event} (body : e.bulkBody ≠ some []) :
    Posting c₀ (c.log e) := by
  refine ⟨posting.toHeld.logged e, ?_⟩
  rw [newEvents_log posting.events]
  exact posting.filled.append (by simpa [Filled] using body)

theorem Posting.asked (posting : Posting c₀ c) (available : Bool) :
    Posting c₀ (c.log (.getNext available)) := posting.logged (by simp [Event.bulkBody])

theorem Posting.emptied (posting : Posting c₀ c) (flag : Bool) :
    Emptied c₀ { c with bulkData := [], boundaries := [], shouldNotifyAfterBulk := flag } :=
  ⟨posting.toContinues.congr rfl rfl rfl rfl, rfl, rfl, posting.filled⟩

theorem Continues.trans (first : Continues c₀ c) (second : Continues c c') : Continues c₀ c' :=
  ⟨first.events.trans second.events, second.appended.trans first.appended,
    second.notify.trans first.notify, second.stopping.trans first.stopping⟩

theorem Posting.trans (first : Posting c₀ c) (second : Posting c c') : Posting c₀ c' := by
  refine ⟨⟨first.toContinues.trans second.toContinues, second.bulkData.trans first.bulkData,
    second.boundaries.trans first.boundaries, second.flag.trans first.flag⟩, ?_⟩
  rw [newEvents_trans first.events second.events]
  exact first.filled.append second.filled

theorem Posting.trans_emptied (first : Posting c₀ c) (second : Emptied c c') : Emptied c₀ c' := by
  refine ⟨first.toContinues.trans second.toContinues, second.bulkData, second.boundaries, ?_⟩
  rw [newEvents_trans first.events second.events]
  exact first.filled.append second.filled

theorem Posting.proper (posting : Posting c₀ c) (represented : Represented c₀) : Proper c₀ c := by
  obtain ⟨operations, suffix, buffered⟩ := represented
  exact ⟨posting.events, ⟨operations, posting.appended ▸ suffix, buffered.nonempty,
    posting.bulkData.trans buffered.bulkData, posting.boundaries.trans buffered.boundaries⟩,
    posting.filled⟩

theorem Emptied.proper (emptied : Emptied c₀ c) : Proper c₀ c :=
  ⟨emptied.events, ⟨[], List.nil_suffix, by simp, emptied.bulkData, emptied.boundaries⟩,
    emptied.filled⟩

theorem take_ne_nil {text : Text} {p : Nat} (positive : 0 < p) (inside : p < text.length) :
    text.take p ≠ [] :=
  List.ne_nil_of_length_pos (by rw [List.length_take]; omega)

theorem drop_ne_nil {text : Text} {p : Nat} (inside : p < text.length) : text.drop p ≠ [] :=
  List.ne_nil_of_length_pos (by rw [List.length_drop]; omega)

/-- Chunks leave the buffer alone, stay within it and are not empty. -/
theorem chunkLoop_posting (posting : Posting c₀ c) (cuts : Cuts c₀ boundaries)
    (filled : data ≠ []) :
    Outcome (Connector.chunkLoop server fuel data boundaries) c (fun _ => Posting c₀)
      (fun e c' => e ≠ .outOfBounds ∧ Posting c₀ c') := by
  induction fuel generalizing c data boundaries with
  | zero => exact Outcome.throw ⟨by simp, posting⟩
  | succ fuel ih =>
    apply Outcome.get_bind
    split
    · exact Outcome.pure posting
    · apply post_outcome
      intro reply
      have logged : Posting c₀ (c.log (.post (.bulk data) reply)) :=
        posting.logged (by simpa [Event.bulkBody] using filled)
      cases reply with
      | success response =>
        simp only
        split
        · exact Outcome.pure logged
        · exact Outcome.throw ⟨by simp, logged⟩
      | error error status =>
        simp only
        split
        · split
          · rename_i several
            obtain ⟨positive, inside⟩ := cuts.middle several
            apply Outcome.bind
            apply Outcome.get_bind
            rw [logged.bulkData, if_neg (by omega)]
            refine getNext_asked (fun e => ?_) (fun e => ⟨by simp, logged.asked e⟩)
            refine (ih (logged.asked e)
              (cuts.sublist (take_sublist _ _)) (take_ne_nil positive inside)).andThen ?_
            intro _ c₁ posting₁
            refine getNext_asked (fun e => ?_) (fun e => ⟨by simp, posting₁.asked e⟩)
            exact ih (posting₁.asked e) (cuts.sublist (drop_sublist _ _))
              (drop_ne_nil inside)
          · exact Outcome.throw ⟨by simp, logged⟩
        · split
          · exact Outcome.throw ⟨by simp, logged⟩
          · split
            · exact ih logged cuts filled
            · exact Outcome.throw ⟨by simp, logged⟩

/-- A split empties the buffer, or raises and leaves it. -/
theorem splitAndProcessBulk_posting (posting : Posting c₀ c) (cuts : Cuts c₀ c₀.boundaries) :
    Outcome (Connector.splitAndProcessBulk server fuel) c (fun _ => Emptied c₀)
      (fun e c' => e ≠ .outOfBounds ∧ Posting c₀ c') := by
  apply Outcome.get_bind
  simp only [posting.boundaries]
  refine require_outcome (fun enough => ?_) ⟨by simp, posting⟩
  have several : 1 < c₀.boundaries.length := of_decide_eq_true enough
  obtain ⟨positive, inside⟩ := cuts.middle several
  apply Outcome.bind
  apply Outcome.get_bind
  rw [posting.bulkData, if_neg (by omega)]
  have half {c : Connector κ} (posting : Posting c₀ c) {data : Text} (filled : data ≠ [])
      {part : List Nat} (sub : part.Sublist c₀.boundaries) :
      Outcome (Connector.processHalf server fuel data part) c (fun _ => Posting c₀)
        (fun e c' => e ≠ .outOfBounds ∧ Posting c₀ c') := by
    rw [Connector.processHalf]
    split
    · refine getNext_asked (fun e => ?_) (fun e => ⟨by simp, posting.asked e⟩)
      exact chunkLoop_posting (posting.asked e) (cuts.sublist sub) filled
    · exact Outcome.pure posting
  refine (half posting (take_ne_nil positive inside) (take_sublist _ _)).andThen ?_
  intro _ c₁ posting₁
  refine (half posting₁ (drop_ne_nil inside) (drop_sublist _ _)).andThen ?_
  intro _ c₂ posting₂
  exact Outcome.bind (Outcome.modify (Outcome.modify (posting₂.emptied true)))

/-- The buffer is as it was or was cleared, and no empty body was posted. -/
def Tidy (c₀ c : Connector κ) : Prop := Posting c₀ c ∨ Emptied c₀ c

theorem Tidy.proper (tidy : Tidy c₀ c) (represented : Represented c₀) : Proper c₀ c := by
  cases tidy with
  | inl posting => exact posting.proper represented
  | inr emptied => exact emptied.proper

/-- An exchange that is not orderly does not become so. -/
theorem Orderly.earlier (longer : c.events <+: c'.events) (orderly : Orderly c₀ (newEvents c₀ c')) :
    Orderly c₀ (newEvents c₀ c) := by
  have sub : (newEvents c₀ c).Sublist (newEvents c₀ c') := longer.sublist.drop _
  exact ⟨fun some e member => orderly.1 some e (sub.subset member), orderly.2.sublist sub⟩

/-- The whole buffer was answered with 429 in this call. -/
def Retried (c₀ c : Connector κ) : Prop := ∃ e ∈ newEvents c₀ c, e.busy c₀ = true

/-- The loop is done with the buffer and no empty body was posted. -/
def Passed (c₀ c : Connector κ) : Prop := Continues c₀ c ∧ Filled (newEvents c₀ c)

/-- A 413 after a 429 is not orderly. -/
theorem not_orderly_of_retried (continues : Continues c₀ c) (retried : Retried c₀ c)
    {error : String} (several : 1 < c₀.boundaries.length)
    (longer : (c.log (.post (.bulk c₀.bulkData) (.error error 413))).events <+: c'.events) :
    ¬Orderly c₀ (newEvents c₀ c') := by
  intro orderly
  obtain ⟨e, member, busy⟩ := retried
  have pairs := (orderly.earlier longer).2
  rw [newEvents_log continues.events, pairwise_append] at pairs
  refine pairs.2.2 e member _ (mem_singleton_self _) ⟨busy, ?_⟩
  simp [Event.tooLarge, several]

/-- The answer to the whole buffer, in an orderly exchange. -/
theorem onBulkReply_orderly (posting : Posting c₀ c) (filled : c₀.bulkData ≠ [])
    (cuts : Cuts c₀ c₀.boundaries) {needToRetry : Bool}
    (retried : needToRetry = true → Retried c₀ c) (reply : Reply) :
    Outcome (Connector.onBulkReply server fuel needToRetry reply)
      (c.log (.post (.bulk c₀.bulkData) reply))
      (fun again c' => Continues c₀ c' ∧ (Orderly c₀ (newEvents c₀ c') →
        if again then Posting c₀ c' ∧ Retried c₀ c' else Passed c₀ c'))
      (fun e c' => Orderly c₀ (newEvents c₀ c') → e ≠ .outOfBounds ∧ Tidy c₀ c') := by
  have logged : Posting c₀ (c.log (.post (.bulk c₀.bulkData) reply)) :=
    posting.logged (by simpa [Event.bulkBody] using filled)
  have continues := logged.toContinues
  apply onBulkReply_cases
  · exact fun _ _ _ => ⟨continues.congr rfl rfl rfl rfl, fun _ =>
      ⟨continues.congr rfl rfl rfl rfl, logged.filled⟩⟩
  · exact fun _ _ _ => ⟨by simp, .inr (logged.emptied _)⟩
  · rintro error rfl several
    rw [logged.boundaries] at several
    refine (splitAndProcessBulk_posting (.refl _) (cuts.congr logged.toHeld)).mono ?_ ?_
    · intro _ c' emptied
      have whole := logged.trans_emptied emptied
      refine ⟨whole.toContinues, fun orderly => ?_⟩
      split
      · rename_i again
        exact absurd orderly (not_orderly_of_retried posting.toContinues (retried again) several
          emptied.events)
      · exact ⟨whole.toContinues, whole.filled⟩
    · exact fun _ _ raised _ => ⟨raised.1, .inl (logged.trans raised.2)⟩
  · rintro error rfl
    refine ⟨continues, fun _ => ⟨logged, ?_⟩⟩
    refine ⟨.post (.bulk c₀.bulkData) (.error error 429), ?_, by simp [Event.busy]⟩
    rw [newEvents_log posting.events]
    simp

/-- Whatever it answers, the loop only adds to the exchange. -/
theorem bulkLoop_grows (c : Connector κ) (needToRetry : Bool) :
    Outcome (Connector.bulkLoop server fuel needToRetry) c
      (fun _ c' => c.events <+: c'.events) (fun _ c' => c.events <+: c'.events) := by
  cases stopping : c.stopping with
  | false =>
    exact (bulkLoop_outcome (.inl (.refl c)) stopping).mono (fun _ _ h => h.2.events)
      (fun _ _ h => h.1.events)
  | true =>
    cases fuel with
    | zero => exact Outcome.throw prefix_rfl
    | succ fuel =>
      apply Outcome.get_bind
      rw [if_pos stopping]
      exact Outcome.pure prefix_rfl

/-- The loop over the buffer, in an orderly exchange. -/
theorem bulkLoop_orderly (filled : c₀.bulkData ≠ []) (cuts : Cuts c₀ c₀.boundaries)
    {needToRetry : Bool} (continues : Continues c₀ c) (state : Orderly c₀ (newEvents c₀ c) →
      Posting c₀ c ∧ (needToRetry = true → Retried c₀ c)) :
    Outcome (Connector.bulkLoop server fuel needToRetry) c
      (fun stopped c' => Orderly c₀ (newEvents c₀ c') →
        if stopped then Posting c₀ c' else Passed c₀ c')
      (fun e c' => Orderly c₀ (newEvents c₀ c') → e ≠ .outOfBounds ∧ Tidy c₀ c') := by
  induction fuel generalizing c needToRetry with
  | zero => exact Outcome.throw fun orderly => ⟨by simp, .inl (state orderly).1⟩
  | succ fuel ih =>
    by_cases orderly : Orderly c₀ (newEvents c₀ c)
    · obtain ⟨posting, retried⟩ := state orderly
      apply Outcome.get_bind
      split
      · exact Outcome.pure fun _ => posting
      · refine getNext_asked (fun e => ?_) (fun e _ => ⟨by simp, .inl (posting.asked e)⟩)
        apply Outcome.get_bind
        have asked := posting.asked e
        rw [asked.bulkData]
        apply post_outcome
        intro reply
        apply Outcome.bind
        have still : needToRetry = true → Retried c₀ (c.log (.getNext e)) := by
          intro again
          obtain ⟨e', member, busy⟩ := retried again
          refine ⟨e', ?_, busy⟩
          rw [newEvents_log posting.events]
          exact mem_append_left _ member
        refine (onBulkReply_orderly asked filled cuts still reply).imp ?_
        rintro again c' ⟨continues', met⟩
        cases again with
        | true => exact ih continues' fun orderly' => ⟨(met orderly').1, fun _ => (met orderly').2⟩
        | false => exact Outcome.pure met
    · refine (bulkLoop_grows c needToRetry).mono ?_ ?_
      · exact fun _ _ longer later => absurd (later.earlier longer) orderly
      · exact fun _ _ longer later => absurd (later.earlier longer) orderly

theorem postDelete_orderly {operations : List Text} (buffered : Buffered c₀ operations)
    (posting : Posting c₀ c) {request : Request} (delete : request.IsDelete) :
    Outcome (Connector.postDelete server request) c (fun _ => Posting c₀)
      (fun e c' => Orderly c₀ (newEvents c₀ c') → e ≠ .outOfBounds ∧ Tidy c₀ c') := by
  apply post_outcome
  intro reply
  have logged : Posting c₀ (c.log (.post request reply)) :=
    posting.logged (by cases delete <;> simp [Event.bulkBody])
  cases reply with
  | success response => exact Outcome.pure logged
  | error error status =>
    simp only
    split
    · exact Outcome.pure logged
    · rename_i refused
      apply Outcome.modify_bind
      intro orderly
      refine ⟨by simp, .inr ?_⟩
      by_cases empty : c₀.bulkData = []
      · -- Without operations there are no boundaries to keep.
        have none : operations = [] := by
          by_contra some
          exact flatten_ne_nil some buffered.nonempty (buffered.bulkData ▸ empty)
        have ended : c₀.boundaries = [] := by rw [buffered.boundaries, none]; rfl
        exact ⟨logged.toContinues.congr rfl rfl rfl rfl, rfl, logged.boundaries.trans ended,
          logged.filled⟩
      · have allowed := orderly.1 empty (.post request (.error error status)) (by
          change _ ∈ newEvents c₀ (c.log _)
          rw [newEvents_log posting.events]
          simp)
        cases delete <;> simp [Event.refusedDelete, refused] at allowed

/-- However a call ends, it keeps the representation in an orderly exchange and reads nothing
past the buffer. -/
def Keeps {α : Type} (action : Connector.Action κ α) (c : Connector κ) : Prop :=
  Outcome action c (fun _ c' => Orderly c (newEvents c c') → Proper c c')
    (fun e c' => Orderly c (newEvents c c') → e ≠ .outOfBounds ∧ Proper c c')

theorem processBulk_proper (represented : Represented c) :
    Keeps (Connector.processBulk server fuel) c := by
  obtain ⟨operations, suffix, buffered⟩ := id represented
  have start := Posting.refl c
  have tidied {e : ConnectorError} {c' : Connector κ}
      (raised : Orderly c (newEvents c c') → e ≠ .outOfBounds ∧ Tidy c c')
      (orderly : Orderly c (newEvents c c')) : e ≠ .outOfBounds ∧ Proper c c' :=
    ⟨(raised orderly).1, (raised orderly).2.proper represented⟩
  refine require_outcome (fun _ => ?_) (fun _ => ⟨by simp, start.proper represented⟩)
  refine getNext_asked (fun e => ?_) (fun e _ => ⟨by simp, (start.asked e).proper represented⟩)
  apply Outcome.bind
  have deletes : Outcome (c.deleteRequests.forM (Connector.postDelete server)) (c.log (.getNext e))
      (fun _ => Posting c)
      (fun e c' => Orderly c (newEvents c c') → e ≠ .outOfBounds ∧ Tidy c c') := by
    apply Outcome.forM
    · intro request member t posting
      exact postDelete_orderly buffered posting (deleteRequests_delete c member)
    · exact start.asked e
  refine deletes.mono ?_ (fun _ _ => tidied)
  intro _ c₁ posting
  apply Outcome.bind
  have posts : Outcome (Connector.postBulk server fuel) c₁
      (fun stopped c' => Orderly c (newEvents c c') → if stopped then Posting c c' else Passed c c')
      (fun e c' => Orderly c (newEvents c c') → e ≠ .outOfBounds ∧ Tidy c c') := by
    apply Outcome.get_bind
    split
    · exact Outcome.pure fun _ => ⟨posting.toContinues, posting.filled⟩
    · rename_i some
      rw [posting.bulkData, List.isEmpty_iff] at some
      exact bulkLoop_orderly some buffered.cuts posting.toContinues fun _ => ⟨posting, by simp⟩
  refine posts.mono ?_ (fun _ _ => tidied)
  intro stopped c₂ met
  cases stopped with
  | true => exact Outcome.pure fun orderly => (met orderly).proper represented
  | false =>
    intro orderly
    obtain ⟨continues, filled⟩ := met orderly
    exact Emptied.proper ⟨continues.congr rfl rfl rfl rfl, rfl, rfl, filled⟩

theorem Proper.refl (represented : Represented c) : Proper c c :=
  (Posting.refl c).proper represented

theorem Proper.congr (proper : Proper c₀ c) (events : c'.events = c.events)
    (appended : c'.appended = c.appended) (bulkData : c'.bulkData = c.bulkData)
    (boundaries : c'.boundaries = c.boundaries) : Proper c₀ c' := by
  obtain ⟨operations, suffix, buffered⟩ := proper.represented
  refine ⟨events ▸ proper.events, ⟨operations, appended ▸ suffix, buffered.nonempty,
    bulkData.trans buffered.bulkData, boundaries.trans buffered.boundaries⟩, ?_⟩
  rw [newEvents, events]
  exact proper.filled

/-- A complete operation goes behind the others, and its end behind their ends. -/
theorem Proper.append (proper : Proper c₀ c) {text : Bytes} (nonempty : text ≠ []) :
    Proper c₀ ((c.write text).close text) := by
  obtain ⟨operations, suffix, buffered⟩ := proper.represented
  have whole : (c.write text).bulkData =
      (operations ++ [text.map (·, c.appended.length)]).flatten := by
    simp [Connector.write, buffered.bulkData]
  refine ⟨proper.events, ⟨operations ++ [text.map (·, c.appended.length)], ?_, ?_, whole, ?_⟩,
    proper.filled⟩
  · obtain ⟨sent, same⟩ := suffix
    exact ⟨sent, by rw [← append_assoc, same]; rfl⟩
  · intro operation member
    rcases mem_append.mp member with old | new
    · exact buffered.nonempty operation old
    · obtain rfl := mem_singleton.mp new
      simpa using nonempty
  · rw [ends_snoc, ← whole, ← buffered.boundaries]
    rfl

section Calls

variable {maxBulkSize : Nat}

theorem processBulkIfFull_proper (represented : Represented c) (size : Nat) :
    Keeps (Connector.processBulkIfFull server maxBulkSize fuel size) c := by
  apply Outcome.get_bind
  split
  · exact processBulk_proper represented
  · exact Outcome.pure fun _ => .refl represented

theorem bulkDelete_proper (represented : Represented c) (id index : Bytes) :
    Keeps (Connector.bulkDelete server maxBulkSize fuel id index) c := by
  refine require_outcome (fun _ => ?_) (fun _ => ⟨by simp, .refl represented⟩)
  refine (processBulkIfFull_proper represented _).andThen ?_
  intro _ c₁ proper
  exact Outcome.modify fun orderly => (proper orderly).append (deleteText_ne_nil id index)

/-- A version comes with an id: the operation is written whole. -/
theorem bulkIndex_proper (represented : Represented c) {id index data version : Bytes}
    (whole : (isSafeIndexName index && !version.isEmpty && id.isEmpty) = false) :
    Keeps (Connector.bulkIndex server maxBulkSize fuel id index data version) c := by
  refine require_outcome (fun safe => ?_) (fun _ => ⟨by simp, .refl represented⟩)
  rw [safe, Bool.true_and] at whole
  refine (processBulkIfFull_proper represented _).andThen ?_
  intro _ c₁ proper
  rw [whole]
  exact Outcome.modify fun orderly =>
    (proper orderly).append (indexText_ne_nil id index data version)

theorem takeCallbacks_proper {c₁ : Connector κ}
    (proper : Orderly c (newEvents c c₁) → Proper c c₁) :
    Outcome Connector.takeCallbacks c₁ (fun _ c' => Orderly c (newEvents c c') → Proper c c')
      (fun e c' => Orderly c (newEvents c c') → e ≠ .outOfBounds ∧ Proper c c') := by
  apply Outcome.get_bind
  split
  · apply Outcome.modify_bind
    exact Outcome.pure fun orderly => (proper orderly).congr rfl rfl rfl rfl
  · exact Outcome.pure proper

theorem flush_proper (represented : Represented c) : Keeps (Connector.flush server fuel) c := by
  apply Outcome.modify_bind
  -- Clearing the flag changes neither the buffer nor what was exchanged.
  have same {c' : Connector κ}
      (proper : Proper { c with shouldNotifyAfterBulk := false } c') : Proper c c' :=
    ⟨proper.events, proper.represented, proper.filled⟩
  have cleared : Represented { c with shouldNotifyAfterBulk := false } := by
    obtain ⟨operations, suffix, buffered⟩ := represented
    exact ⟨operations, suffix, buffered.nonempty, buffered.bulkData, buffered.boundaries⟩
  apply Outcome.bind
  apply Outcome.get_bind
  split
  · refine (processBulk_proper cleared).mono ?_ ?_
    · exact fun _ c₁ proper => takeCallbacks_proper fun orderly => same (proper orderly)
    · exact fun _ c₁ raised orderly => ⟨(raised orderly).1, same (raised orderly).2⟩
  · exact Outcome.pure (takeCallbacks_proper fun _ => same (.refl cleared))

theorem timer_proper (represented : Represented c) : Keeps (Connector.timer server fuel) c := by
  apply Outcome.get_bind
  split
  · apply Outcome.bind
    exact (processBulk_proper represented).mono
      (fun _ _ proper => takeCallbacks_proper proper) (fun _ _ h => h)
  · exact Outcome.pure fun _ => .refl represented

theorem updateLoop_proper (represented : Represented c₀) (posting : Posting c₀ c)
    (indexList : List Bytes) (query : String) :
    Outcome (Connector.updateLoop server indexList query fuel) c (fun _ c' => Proper c₀ c')
      (fun e c' => e ≠ .outOfBounds ∧ Proper c₀ c') := by
  induction fuel generalizing c with
  | zero => exact Outcome.throw ⟨by simp, posting.proper represented⟩
  | succ fuel ih =>
    apply Outcome.get_bind
    split
    · exact Outcome.bind (Outcome.modify (Outcome.pure
        ((posting.proper represented).congr rfl rfl rfl rfl)))
    · refine getNext_asked (fun e => ?_) (fun e => ⟨by simp, (posting.asked e).proper represented⟩)
      apply post_outcome
      intro reply
      have logged : Posting c₀ ((c.log (.getNext e)).log
          (.post (.updateByQuery indexList query) reply)) :=
        (posting.asked e).logged (by simp [Event.bulkBody])
      have proper := logged.proper represented
      cases reply with
      | success response => exact Outcome.modify (proper.congr rfl rfl rfl rfl)
      | error error status =>
        simp only
        split
        · exact ih logged
        · exact Outcome.bind (Outcome.modify (Outcome.throw
            ⟨by simp, proper.congr rfl rfl rfl rfl⟩))

end Calls

/-- The call would write the head of an operation and refuse the rest. -/
def Operation.torn : Operation → Bool
  | .bulkIndex id index _ version => isSafeIndexName index && !version.isEmpty && id.isEmpty
  | _ => false

/-- Every call keeps the representation in an orderly exchange, unless it is torn. -/
theorem perform_proper {c : Connector Callback} {maxBulkSize : Nat} (represented : Represented c)
    {operation : Operation} (whole : operation.torn = false) :
    Keeps (operation.perform server maxBulkSize fuel) c := by
  have untouched : Proper c c := .refl represented
  cases operation with
  | bulkIndex id index data version =>
    exact Outcome.bind ((bulkIndex_proper represented whole).mono (fun _ _ h => Outcome.pure h)
      (fun _ _ h => h))
  | bulkDelete id index =>
    exact Outcome.bind ((bulkDelete_proper represented id index).mono
      (fun _ _ h => Outcome.pure h) (fun _ _ h => h))
  | deleteByQuery index agentId | deleteByQueryExceptIds index agentId keepIds =>
    apply Outcome.bind
    refine require_outcome (fun _ => ?_) (fun _ => ⟨by simp, untouched⟩)
    exact Outcome.modify (Outcome.pure fun _ => untouched.congr rfl rfl rfl rfl)
  | executeUpdateByQuery indices query =>
    apply Outcome.bind
    rw [Connector.executeUpdateByQuery]
    split
    · exact Outcome.modify (Outcome.pure fun _ => untouched.congr rfl rfl rfl rfl)
    · exact (updateLoop_proper represented (.refl c) _ query).mono
        (fun _ _ h => Outcome.pure fun _ => h) (fun _ _ h _ => h)
  | registerNotify id =>
    apply Outcome.get_bind
    exact Outcome.bind (Outcome.modify (Outcome.pure fun _ => untouched.congr rfl rfl rfl rfl))
  | flush => exact flush_proper represented
  | invokePendingCallbacks => exact takeCallbacks_proper fun _ => untouched
  | timer => exact timer_proper represented
  | stop =>
    exact Outcome.bind (Outcome.modify (Outcome.pure fun _ => untouched.congr rfl rfl rfl rfl))

/-- The call is whole and its exchange is orderly. -/
def Regular (w : World) : Act → Prop
  | .call operation answers => operation.torn = false ∧ Orderly w.connector answers
  | .invoke _ => True

instance (w : World) (act : Act) : Decidable (Regular w act) :=
  match act with
  | .call _ _ => inferInstanceAs (Decidable (_ ∧ _))
  | .invoke _ => inferInstanceAs (Decidable True)

/-- What every regular run keeps. -/
structure World.Represents (w : World) : Prop where
  represented : Represented w.connector
  filled : Filled w.connector.events

theorem initial_represents : World.initial.Represents :=
  ⟨⟨[], List.nil_suffix, by simp, rfl, rfl⟩, by simp [World.initial, Filled]⟩

theorem step_represents {maxBulkSize : Nat} {w w' : World} {act : Act}
    (step : Meeting Regular (Step server maxBulkSize) w act w') (good : w.Represents) :
    w'.Represents := by
  obtain ⟨regular, step⟩ := step
  cases step with
  | @call operation fuel callbacks c performed =>
    have keeps : Outcome (operation.perform server maxBulkSize fuel) w.connector
        (fun _ c' => Orderly w.connector (newEvents w.connector c') → Proper w.connector c')
        (fun _ c' => Orderly w.connector (newEvents w.connector c') → Proper w.connector c') :=
      (perform_proper good.represented regular.1).mono (fun _ _ h => h)
        (fun _ _ h orderly => (h orderly).2)
    have proper := outcome_met keeps performed regular.2
    refine ⟨proper.represented, ?_⟩
    obtain ⟨events, same⟩ := proper.events
    have new := proper.filled
    rw [newEvents, ← same, drop_left] at new
    rw [← same]
    exact good.filled.append new
  | invoke => exact ⟨good.represented, good.filled⟩

/-- The buffer is the texts of the operations in it and the boundaries are their ends. -/
structure BufferInvariant (c : Connector κ) : Prop where
  represented : Represented c
  increasing : c.boundaries.Pairwise (· < ·)
  last : c.boundaries ≠ [] → c.boundaries.getLast? = some c.bulkData.length
  empty : c.boundaries = [] ↔ c.bulkData = []

theorem Represented.invariant (represented : Represented c) : BufferInvariant c := by
  obtain ⟨operations, suffix, buffered⟩ := id represented
  have none_iff : c.boundaries = [] ↔ operations = [] := by
    rw [buffered.boundaries, ← length_eq_zero_iff, length_ends, length_eq_zero_iff]
  refine ⟨represented, buffered.cuts.increasing, fun some => ?_, none_iff.trans ⟨?_, ?_⟩⟩
  · rw [buffered.boundaries, buffered.bulkData]
    exact getLast?_ends (mt none_iff.mpr some)
  · rintro rfl
    exact buffered.bulkData
  · intro empty
    by_contra some
    exact flatten_ne_nil some buffered.nonempty (buffered.bulkData ▸ empty)

/-- **The buffer represents the operations that wait**, in every state of a run whose calls are
whole and whose exchanges are orderly; and no call that is made there posts an empty body, also
while it has not ended. -/
theorem bulk_buffer_represented (server : Server) (maxBulkSize : Nat) {acts : List Act} {w : World}
    (run : Steps (Meeting Regular (Step server maxBulkSize)) .initial acts w) :
    BufferInvariant w.connector ∧ Filled w.connector.events ∧
      ∀ (operation : Operation) (fuel : Nat), operation.torn = false →
        Keeps (operation.perform server maxBulkSize fuel) w.connector := by
  have good : w.Represents := run.invariant step_represents initial_represents
  exact ⟨good.represented.invariant, good.filled, fun _ _ whole =>
    perform_proper good.represented whole⟩

/-- An indexer that gives the answers in turn and then accepts everything. -/
def Server.inTurn (replies : List Reply) : Server where
  available := fun _ => true
  reply := fun events _ => replies.getD (events.countP Event.isPost) .accepted

theorem bulk_buffer_represented_pair :
    ∃ acts w, Steps (Meeting Regular (Step (.inTurn [.error "busy" 429]) 1000)) .initial acts w ∧
      w.connector.events.length = 5 ∧ BufferInvariant w.connector := by
  have ends : (World.run (fun w act => decide (Regular w act)) (.inTurn [.error "busy" 429]) 1000
      .initial [indexOne "a", indexOne "b", .flush]).map (·.connector.events.length) = some 5 := by
    decide
  obtain ⟨w, ran, exchanged⟩ := Option.map_eq_some_iff.mp ends
  obtain ⟨acts, run⟩ := run_steps Regular (fun _ _ met => of_decide_eq_true met) .nil ran
  exact ⟨acts, w, run, exchanged, (bulk_buffer_represented _ _ run).1⟩

/-- One of the two lists that describe the buffer is empty and the other is not, or an empty body
was posted. -/
def World.misrepresents (w : World) : Bool :=
  (w.connector.boundaries.isEmpty != w.connector.bulkData.isEmpty) ||
    w.connector.events.any fun e => e.bulkBody == some []

theorem misrepresents_run {server : Server} (operations : List Operation)
    (ran : (World.run (fun _ _ => true) server 1000 .initial operations).map
      World.misrepresents = some true) : ∃ acts w, Steps (Step server 1000) .initial acts w ∧
      ¬(BufferInvariant w.connector ∧ Filled w.connector.events) := by
  obtain ⟨w, reached, wrong⟩ := Option.map_eq_some_iff.mp ran
  obtain ⟨acts, steps⟩ := run_steps (fun _ _ => True) (fun _ _ _ => trivial) .nil reached
  refine ⟨acts, w, steps.mono fun step => step.2, ?_⟩
  rintro ⟨invariant, filled⟩
  rw [World.misrepresents, Bool.or_eq_true] at wrong
  rcases wrong with differ | posted
  · have same : w.connector.boundaries.isEmpty = w.connector.bulkData.isEmpty := by
      rw [Bool.eq_iff_iff, List.isEmpty_iff, List.isEmpty_iff]
      exact invariant.empty
    simp [same] at differ
  · obtain ⟨e, member, body⟩ := List.any_eq_true.mp posted
    exact filled e member (beq_iff_eq.mp body)

/-- A version without an id leaves the head of an operation in the buffer; a failed
delete-by-query leaves boundaries of a buffer that is gone; a 413 after a 429 makes the loop post
an empty body. -/
theorem buffer_misrepresented : (∃ acts w, Steps (Step .accepting 1000) .initial acts w ∧
      ¬(BufferInvariant w.connector ∧ Filled w.connector.events)) ∧
    (∃ acts w, Steps (Step (.inTurn [.error "failed" 500]) 1000) .initial acts w ∧
      ¬(BufferInvariant w.connector ∧ Filled w.connector.events)) ∧
    (∃ acts w, Steps (Step (.inTurn [.error "busy" 429, .error "too large" 413]) 1000) .initial
      acts w ∧ ¬(BufferInvariant w.connector ∧ Filled w.connector.events)) := by
  refine ⟨misrepresents_run [.bulkIndex [] ['i'] ['d'] ['1']] (by decide), ?_, ?_⟩
  · exact misrepresents_run [indexOne "a", .deleteByQuery ['i'] "001", .flush] (by decide)
  · exact misrepresents_run [indexOne "a", indexOne "b", .flush] (by decide)

end GuardSarm.Indexer
