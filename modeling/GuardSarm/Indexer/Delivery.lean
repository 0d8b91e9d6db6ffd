import GuardSarm.Lib.Outcome
import GuardSarm.Indexer.Connector

/-! What one run of `processBulk` does with the operations in the buffer. Unless
an answer of the indexer makes it drop them, they all reach an accepted request
or stay in the buffer; and where it returns, they have reached one. -/
namespace GuardSarm.Indexer

open List

variable {κ : Type}

/-- The body of a bulk request whose response was accepted. -/
def Event.acceptedBody : Event → Option Text
  | .post (.bulk body) (.success response) => if validateBulkResponse response then some body else none
  | _ => none

/-- The text was part of a bulk request, whole or chunk, whose response was accepted. -/
def Accepted (events : List Event) (text : Text) : Prop :=
  ∃ body response, .post (.bulk body) (.success response) ∈ events ∧
    validateBulkResponse response = true ∧ text <:+: body

theorem Accepted.mono {events events' : List Event} {text : Text}
    (sub : events <+: events') (accepted : Accepted events text) : Accepted events' text := by
  obtain ⟨body, response, member, valid, part⟩ := accepted
  exact ⟨body, response, sub.subset member, valid, part⟩

/-- The text stands in the buffer after `before`, and no boundary falls inside it. -/
structure Aligned (c : Connector κ) (before text after : Text) : Prop where
  nonempty : text ≠ []
  buffer : c.bulkData = before ++ text ++ after
  uncut : ∀ p ∈ c.boundaries, p ≤ before.length ∨ before.length + text.length ≤ p

/-- Every operation in the buffer has been accepted. -/
def Flushed (c : Connector κ) (events : List Event) : Prop :=
  ∀ before text after, Aligned c before text after → Accepted events text

/-- The answer makes `processBulk` drop a buffer that held operations when it was called. -/
def Drops (c : Connector κ) : Event → Prop
  | .post (.bulk body) (.success response) =>
    body = c.bulkData ∧ validateBulkResponse response = false
  | .post (.bulk body) (.error _ status) =>
    body = c.bulkData ∧ status ≠ 429 ∧ (status = 413 → c.boundaries.length ≤ 1)
  | .post (.deleteByQuery _ _) (.error _ status)
  | .post (.deleteByQueryExceptIds _ _ _) (.error _ status) =>
    c.bulkData ≠ [] ∧ ¬(status = 404 ∨ status = 409 ∨ status = 429)
  | _ => False

instance (c : Connector κ) (e : Event) : Decidable (Drops c e) := by
  unfold Drops
  split <;> infer_instance

/-- `c` was reached from `c₀` inside one call: the exchange went on and the callbacks, the
operations appended and the stop flag are the same. -/
structure Continues (c₀ c : Connector κ) : Prop where
  events : c₀.events <+: c.events
  appended : c.appended = c₀.appended
  notify : c.notify = c₀.notify
  stopping : c.stopping = c₀.stopping

theorem Continues.refl (c : Connector κ) : Continues c c := ⟨List.prefix_rfl, rfl, rfl, rfl⟩

theorem Continues.congr {c₀ c c' : Connector κ} (continues : Continues c₀ c)
    (events : c'.events = c.events) (appended : c'.appended = c.appended)
    (notify : c'.notify = c.notify) (stopping : c'.stopping = c.stopping) : Continues c₀ c' :=
  ⟨events ▸ continues.events, appended.trans continues.appended,
    notify.trans continues.notify, stopping.trans continues.stopping⟩

/-- No answer since `c₀` dropped the buffer. -/
def Clean (c₀ c : Connector κ) : Prop :=
  ∀ e ∈ c.events.drop c₀.events.length, ¬Drops c₀ e

/-- The buffer and the flag are as they were. -/
structure Held (c₀ c : Connector κ) : Prop extends Continues c₀ c where
  bulkData : c.bulkData = c₀.bulkData
  boundaries : c.boundaries = c₀.boundaries
  flag : c.shouldNotifyAfterBulk = c₀.shouldNotifyAfterBulk

theorem Held.refl (c : Connector κ) : Held c c := ⟨.refl c, rfl, rfl, rfl⟩

structure Sent (c₀ c : Connector κ) : Prop extends Continues c₀ c where
  bulkData : c.bulkData = []
  boundaries : c.boundaries = []
  flushed : Flushed c₀ c.events

variable {c₀ c : Connector κ} {server : Server}

theorem Held.logged (held : Held c₀ c) (e : Event) : Held c₀ (c.log e) :=
  ⟨⟨held.events.trans (List.prefix_append _ _), held.appended, held.notify, held.stopping⟩,
    held.bulkData, held.boundaries, held.flag⟩

theorem Sent.logged (sent : Sent c₀ c) (e : Event) : Sent c₀ (c.log e) := by
  have longer : c.events <+: c.events ++ [e] := prefix_append _ _
  exact ⟨⟨sent.events.trans longer, sent.appended, sent.notify, sent.stopping⟩, sent.bulkData,
    sent.boundaries, fun before text after aligned =>
      (sent.flushed before text after aligned).mono longer⟩

variable {R : ConnectorError → Connector κ → Prop} {α : Type} {Q : α → Connector κ → Prop}

/-- `getNext` records whether there is a server, and raises if there is none. -/
theorem getNext_asked {f : Unit → Connector.Action κ α}
    (returns : ∀ available, Outcome (f ()) (c.log (.getNext available)) Q R)
    (raises : ∀ available, R .noServer (c.log (.getNext available))) :
    Outcome (Connector.getNext server >>= f) c Q R := by
  apply Outcome.bind
  apply Outcome.get_bind
  apply Outcome.modify_bind
  split
  · exact Outcome.pure (returns _)
  · exact Outcome.throw (raises _)

theorem getNext_outcome {f : Unit → Connector.Action κ α}
    (returns : ∀ e, Outcome (f ()) (c.log e) Q R) (raises : ∀ e, R .noServer (c.log e)) :
    Outcome (Connector.getNext server >>= f) c Q R :=
  getNext_asked (fun _ => returns _) (fun _ => raises _)

variable {request : Request}

/-- The answer comes from the server and is recorded. -/
theorem post_answer {f : Reply → Connector.Action κ α}
    (logged : Outcome (f (server.reply c.events request))
      (c.log (.post request (server.reply c.events request))) Q R) :
    Outcome (Connector.post server request >>= f) c Q R := by
  apply Outcome.bind
  apply Outcome.get_bind
  apply Outcome.modify_bind
  exact Outcome.pure logged

theorem post_outcome {f : Reply → Connector.Action κ α}
    (logged : ∀ reply, Outcome (f reply) (c.log (.post request reply)) Q R) :
    Outcome (Connector.post server request >>= f) c Q R :=
  post_answer (logged _)

/-- An exchange that ends with a dropping answer is not clean. -/
theorem not_clean_of_drops (continues : Continues c₀ c) {e : Event} (drops : Drops c₀ e)
    {c' : Connector κ} (logged : c'.events = (c.log e).events) : ¬Clean c₀ c' := by
  intro clean
  apply clean e ?_ drops
  rw [logged, Connector.log, drop_append_of_le_length continues.events.length_le]
  simp

/-- What a raised exception may leave: the buffer as it was or sent, unless an answer dropped it. -/
def Kept (c₀ c : Connector κ) : Prop :=
  Continues c₀ c ∧ (Clean c₀ c → Held c₀ c ∨ Sent c₀ c)

theorem Held.kept (held : Held c₀ c) : Kept c₀ c := ⟨held.toContinues, fun _ => .inl held⟩

theorem Sent.kept (sent : Sent c₀ c) : Kept c₀ c := ⟨sent.toContinues, fun _ => .inr sent⟩

/-- An answer that drops the buffer after which any buffer may be left. -/
theorem kept_of_drops (held : Held c₀ c) {e : Event} (drops : Drops c₀ e) (bulkData : Text)
    (boundaries : List Nat) : Kept c₀ { c.log e with bulkData, boundaries } :=
  ⟨(held.logged e).toContinues.congr rfl rfl rfl rfl,
    fun clean => absurd clean (not_clean_of_drops held.toContinues drops rfl)⟩

/-- The two kinds of delete-by-query requests. -/
inductive Request.IsDelete : Request → Prop
  | byQuery (index : Bytes) (agentIds : List String) : IsDelete (.deleteByQuery index agentIds)
  | exceptIds (index : Bytes) (agentId : String) (keepIds : List Bytes) :
      IsDelete (.deleteByQueryExceptIds index agentId keepIds)

theorem postDelete_outcome (held : Held c₀ c) (delete : request.IsDelete) :
    Outcome (Connector.postDelete server request) c (fun _ => Held c₀) (fun _ => Kept c₀) := by
  apply post_outcome
  intro reply
  have logged := held.logged (.post request reply)
  cases reply with
  | success response => exact Outcome.pure logged
  | error error status =>
    simp only
    split
    · exact Outcome.pure logged
    · rename_i status_other
      apply Outcome.modify_bind
      apply Outcome.throw
      by_cases empty : c₀.bulkData = []
      · exact Held.kept
          ⟨logged.toContinues.congr rfl rfl rfl rfl, empty.symm, logged.boundaries, logged.flag⟩
      · refine kept_of_drops held (e := .post request (.error error status)) ?_ [] c.boundaries
        cases delete <;> exact ⟨empty, status_other⟩

/-- The chunk reaches over the text. -/
def Reaches (c : Connector κ) (data before text : Text) : Prop :=
  (∃ p, data = c.bulkData.take p ∧ before.length + text.length ≤ p) ∨
    (∃ p, data = c.bulkData.drop p ∧ p ≤ before.length)

theorem Reaches.part {data before text after : Text} (aligned : Aligned c before text after)
    (reaches : Reaches c data before text) : text <:+: data := by
  rcases reaches with ⟨p, rfl, bound⟩ | ⟨p, rfl, bound⟩
  · have whole : (before ++ text).take p = before ++ text :=
      take_of_length_le (by simpa using bound)
    rw [aligned.buffer, take_append, whole]
    exact ⟨before, _, rfl⟩
  · rw [aligned.buffer, append_assoc, drop_append_of_le_length bound]
    exact ⟨before.drop p, after, by simp⟩

/-- At a boundary the text falls into one of the two halves. -/
theorem reaches_halves {before text after : Text} (aligned : Aligned c before text after) {p : Nat}
    (boundary : p ∈ c.boundaries) : Reaches c (c.bulkData.take p) before text ∨
      Reaches c (c.bulkData.drop p) before text := by
  rcases aligned.uncut p boundary with low | high
  · exact .inr (.inr ⟨p, rfl, low⟩)
  · exact .inl (.inl ⟨p, rfl, high⟩)

theorem getD_mem_of_lt {bs : List Nat} {i : Nat} (bound : i < bs.length) : bs.getD i 0 ∈ bs := by
  rw [getD_eq_getElem _ _ bound]
  exact getElem_mem bound

theorem require_outcome {condition : Bool} {what : String} {f : Unit → Connector.Action κ α}
    (returns : condition = true → Outcome (f ()) c Q R) (raises : R (.connectorException what) c) :
    Outcome (Connector.require condition what >>= f) c Q R := by
  apply Outcome.bind
  rw [Connector.require]
  split
  · rename_i holds
    exact Outcome.pure (returns holds)
  · exact Outcome.throw raises

theorem halves_outcome {position : Nat} {f : Text × Text → Connector.Action κ α}
    (raises : R .outOfBounds c)
    (returns : Outcome (f (c.bulkData.take position, c.bulkData.drop position)) c Q R) :
    Outcome (Connector.halves position >>= f) c Q R := by
  apply Outcome.bind
  apply Outcome.get_bind
  split
  · exact Outcome.throw raises
  · exact Outcome.pure returns

variable {fuel : Nat} {boundaries : List Nat}

/-- The buffer is left alone, and without a stop request every operation that the chunk reaches
over has been accepted. -/
def Covers (c₀ c : Connector κ) (data : Text) (c' : Connector κ) : Prop :=
  Held c₀ c' ∧ c.events <+: c'.events ∧ (c₀.stopping = false →
    ∀ before text after, Aligned c₀ before text after → Reaches c₀ data before text →
      Accepted c'.events text)

theorem chunkLoop_outcome {data : Text} (held : Held c₀ c) (sub : boundaries ⊆ c₀.boundaries) :
    Outcome (Connector.chunkLoop server fuel data boundaries) c (fun _ => Covers c₀ c data)
      (fun _ => Held c₀) := by
  induction fuel generalizing c data boundaries with
  | zero => exact Outcome.throw held
  | succ fuel ih =>
    rw [Connector.chunkLoop]
    apply Outcome.get_bind
    split
    · rename_i stops
      refine Outcome.pure ⟨held, prefix_rfl, ?_⟩
      rw [← held.stopping, stops]
      simp
    · apply post_outcome
      intro reply
      have logged := held.logged (.post (.bulk data) reply)
      have longer : c.events <+: (c.log (.post (.bulk data) reply)).events :=
        prefix_append _ _
      cases reply with
      | success response =>
        simp only
        split
        · rename_i valid
          refine Outcome.pure ⟨logged, longer, ?_⟩
          intro _ before text after aligned reaches
          exact ⟨data, response, by simp [Connector.log], valid, reaches.part aligned⟩
        · exact Outcome.throw logged
      | error error status =>
        simp only
        split
        · split
          · rename_i several
            have member : boundaries.getD (boundaries.length / 2 - 1) 0 ∈ c₀.boundaries :=
              sub (getD_mem_of_lt (by omega))
            refine halves_outcome logged ?_
            simp only [logged.bulkData]
            refine getNext_outcome (fun e => ?_) (fun e => logged.logged e)
            refine (ih (logged.logged e) fun p taken => sub (mem_of_mem_take taken)).andThen ?_
            rintro _ c₁ ⟨held₁, later₁, first⟩
            refine getNext_outcome (fun e => ?_) (fun e => held₁.logged e)
            refine (ih (held₁.logged e) fun p left => sub (mem_of_mem_drop left)).imp ?_
            rintro _ c₂ ⟨held₂, later₂, second⟩
            have after₁ : c₁.events <+: c₂.events := (prefix_append _ _).trans later₂
            refine ⟨held₂, (longer.trans (prefix_append _ _)).trans (later₁.trans after₁), ?_⟩
            intro goes before text after aligned _
            rcases reaches_halves aligned member with low | high
            · exact (first goes before text after aligned low).mono after₁
            · exact second goes before text after aligned high
          · exact Outcome.throw logged
        · split
          · exact Outcome.throw logged
          · split
            · refine (ih logged sub).imp ?_
              rintro _ c' ⟨held', later, flushed⟩
              exact ⟨held', longer.trans later, flushed⟩
            · exact Outcome.throw logged

theorem processBulkChunk_outcome {data : Text}
    (held : Held c₀ c) (sub : boundaries ⊆ c₀.boundaries) :
    Outcome (Connector.processBulkChunk server fuel data boundaries) c
      (fun _ => Covers c₀ c data) (fun _ => Held c₀) := by
  refine getNext_outcome (fun e => ?_) (fun e => held.logged e)
  refine (chunkLoop_outcome (held.logged e) sub).imp ?_
  rintro _ c' ⟨held', later, flushed⟩
  exact ⟨held', (prefix_append _ _).trans later, flushed⟩

/-- A half that holds nothing is skipped: no operation lies in it. -/
theorem processHalf_outcome {data : Text}
    (held : Held c₀ c) (sub : boundaries ⊆ c₀.boundaries) (some_left : boundaries ≠ []) :
    Outcome (Connector.processHalf server fuel data boundaries) c (fun _ => Covers c₀ c data)
      (fun _ => Held c₀) := by
  rw [Connector.processHalf]
  split
  · exact processBulkChunk_outcome held sub
  · rename_i skipped
    refine Outcome.pure ⟨held, prefix_rfl, ?_⟩
    intro _ before text after aligned reaches
    have empty : data = [] := by simpa [some_left] using skipped
    have part := reaches.part aligned
    rw [empty, infix_nil] at part
    exact absurd part aligned.nonempty

/-- Where the split returns, the buffer has been sent in pieces. -/
theorem splitAndProcessBulk_outcome (held : Held c₀ c) (goes : c₀.stopping = false) :
    Outcome (Connector.splitAndProcessBulk server fuel) c
      (fun _ c' => Sent c₀ c' ∧ c'.shouldNotifyAfterBulk = true) (fun _ => Held c₀) := by
  apply Outcome.get_bind
  refine require_outcome (fun several => ?_) held
  have enough : 1 < c₀.boundaries.length := by simpa [held.boundaries] using several
  have member : c.boundaries.getD (c.boundaries.length / 2 - 1) 0 ∈ c₀.boundaries := by
    rw [held.boundaries]
    exact getD_mem_of_lt (by omega)
  refine halves_outcome held ?_
  simp only [held.bulkData]
  refine (processHalf_outcome held (fun p taken => ?_) ?_).andThen ?_
  · exact held.boundaries ▸ mem_of_mem_take taken
  · rw [held.boundaries, ne_eq, take_eq_nil_iff, not_or]
    exact ⟨by omega, by intro none; simp [none] at enough⟩
  rintro _ c₁ ⟨held₁, _, first⟩
  refine (processHalf_outcome held₁ (fun p left => ?_) ?_).andThen ?_
  · exact held.boundaries ▸ mem_of_mem_drop left
  · rw [held.boundaries, ne_eq, drop_eq_nil_iff]
    omega
  rintro _ c₂ ⟨held₂, later, second⟩
  apply Outcome.modify_bind
  apply Outcome.modify
  refine ⟨⟨held₂.toContinues.congr rfl rfl rfl rfl, rfl, rfl, ?_⟩, rfl⟩
  intro before text after aligned
  rcases reaches_halves aligned member with low | high
  · exact (first goes before text after aligned low).mono later
  · exact second goes before text after aligned high

/-- The operations have been accepted and the flag is set; the buffer is not yet cleared. -/
structure Finished (c₀ c : Connector κ) : Prop extends Continues c₀ c where
  flushed : Flushed c₀ c.events
  flag : c.shouldNotifyAfterBulk = true

variable {needToRetry : Bool}

/-- The answer to the buffer makes the connector drop it. -/
def Refused (c : Connector κ) : Reply → Prop
  | .success response => validateBulkResponse response = false
  | .error _ status => status ≠ 429 ∧ (status = 413 → c.boundaries.length ≤ 1)

/-- After an answer the buffer is done with, dropped, split or to be posted again. -/
theorem onBulkReply_cases {reply : Reply} {Q : Bool → Connector κ → Prop}
    (accepts : ∀ response, reply = .success response → validateBulkResponse response = true →
      Q false { c with shouldNotifyAfterBulk := true })
    (drops : Refused c reply → ∀ what,
      R (.connectorException what) { c with bulkData := [], boundaries := [] })
    (splits : ∀ error, reply = .error error 413 → 1 < c.boundaries.length →
      Outcome (Connector.splitAndProcessBulk server fuel) c (fun _ => Q needToRetry) R)
    (busy : ∀ error, reply = .error error 429 → Q true c) :
    Outcome (Connector.onBulkReply server fuel needToRetry reply) c Q R := by
  have dropped (refused : Refused c reply) (what : String) :
      Outcome (do Connector.clearBulk; Connector.fail what) c Q R :=
    Outcome.bind (Outcome.modify (Outcome.throw (drops refused what)))
  cases reply with
  | success response =>
    simp only [Connector.onBulkReply]
    split
    · rename_i valid
      exact Outcome.bind (Outcome.modify (Outcome.pure (accepts response rfl valid)))
    · rename_i invalid
      exact dropped (Bool.eq_false_iff.mpr invalid) _
  | error error status =>
    simp only [Connector.onBulkReply]
    split
    · rename_i tooLarge
      apply Outcome.get_bind
      split
      · rename_i single
        exact dropped ⟨by omega, fun _ => single⟩ _
      · rename_i several
        exact (splits error (tooLarge ▸ rfl) (not_le.mp several)).andThen fun _ _ => Outcome.pure
    · rename_i notTooLarge
      have refused (other : status ≠ 429) : Refused c (.error error status) :=
        ⟨other, fun same => absurd same notTooLarge⟩
      split
      · exact dropped (refused (by omega)) _
      · split
        · rename_i again
          exact Outcome.pure (busy error (again ▸ rfl))
        · rename_i other
          exact dropped (refused other) _

theorem onBulkReply_held (held : Held c₀ c) (goes : c₀.stopping = false) (reply : Reply) :
    Outcome (Connector.onBulkReply server fuel needToRetry reply)
      (c.log (.post (.bulk c₀.bulkData) reply))
      (fun again c' => if again then Held c₀ c' ∨ Sent c₀ c' else Finished c₀ c')
      (fun _ => Kept c₀) := by
  have logged := held.logged (.post (.bulk c₀.bulkData) reply)
  apply onBulkReply_cases
  · rintro response rfl valid
    refine ⟨logged.toContinues.congr rfl rfl rfl rfl, ?_, rfl⟩
    intro before text after aligned
    refine ⟨c₀.bulkData, response, by simp [Connector.log], valid, ?_⟩
    rw [aligned.buffer]
    exact ⟨before, after, rfl⟩
  · intro refused _
    refine kept_of_drops held ?_ [] []
    cases reply with
    | success response => exact ⟨rfl, refused⟩
    | error error status => exact ⟨rfl, refused.1, logged.boundaries ▸ refused.2⟩
  · intro _ _ _
    refine (splitAndProcessBulk_outcome logged goes).mono ?_ (fun _ _ h => h.kept)
    rintro _ c' ⟨sent, flag⟩
    split
    · exact .inr sent
    · exact ⟨sent.toContinues, sent.flushed, flag⟩
  · exact fun _ _ => .inl logged

/-- The answer to the empty body that is posted when a 413 followed a 429. -/
theorem onBulkReply_sent (sent : Sent c₀ c) (reply : Reply) :
    Outcome (Connector.onBulkReply server fuel needToRetry reply) c
      (fun again c' => if again then Held c₀ c' ∨ Sent c₀ c' else Finished c₀ c')
      (fun _ => Kept c₀) := by
  apply onBulkReply_cases
  · exact fun _ _ _ => ⟨sent.toContinues.congr rfl rfl rfl rfl, sent.flushed, rfl⟩
  · exact fun _ _ => Sent.kept ⟨sent.toContinues.congr rfl rfl rfl rfl, rfl, rfl, sent.flushed⟩
  · intro _ _ several
    simp [sent.boundaries] at several
  · exact fun _ _ => .inr sent

theorem bulkLoop_outcome (state : Held c₀ c ∨ Sent c₀ c) (goes : c₀.stopping = false) :
    Outcome (Connector.bulkLoop server fuel needToRetry) c
      (fun stopped c' => stopped = false ∧ Finished c₀ c') (fun _ => Kept c₀) := by
  induction fuel generalizing c needToRetry with
  | zero => exact Outcome.throw (state.elim Held.kept Sent.kept)
  | succ fuel ih =>
    have moves : c.stopping = false := by
      rcases state with held | sent
      · rw [held.stopping, goes]
      · rw [sent.stopping, goes]
    rw [Connector.bulkLoop]
    apply Outcome.get_bind
    simp only [moves, Bool.false_eq_true, if_false]
    refine getNext_outcome (fun e => ?_) (fun e => ?_)
    swap
    · exact state.elim (fun h => (h.logged e).kept) (fun h => (h.logged e).kept)
    apply Outcome.get_bind
    apply post_outcome
    intro reply
    apply Outcome.bind
    have answer : Outcome (Connector.onBulkReply server fuel needToRetry reply)
        ((c.log e).log (.post (.bulk (c.log e).bulkData) reply))
        (fun again c' => if again then Held c₀ c' ∨ Sent c₀ c' else Finished c₀ c')
        (fun _ => Kept c₀) := by
      rcases state with held | sent
      · rw [(held.logged e).bulkData]
        exact onBulkReply_held (held.logged e) goes reply
      · exact onBulkReply_sent ((sent.logged e).logged _) reply
    refine answer.imp ?_
    intro again c' result
    cases again with
    | true => exact ih result
    | false => exact Outcome.pure ⟨rfl, result⟩

theorem flushed_of_empty (empty : c₀.bulkData = []) (events : List Event) : Flushed c₀ events := by
  intro before text after aligned
  have part : text <:+: c₀.bulkData := by
    rw [aligned.buffer]
    exact ⟨before, after, rfl⟩
  rw [empty, infix_nil] at part
  exact absurd part aligned.nonempty

theorem deleteRequests_delete (c : Connector κ) (member : request ∈ c.deleteRequests) :
    request.IsDelete := by
  simp only [Connector.deleteRequests, mem_append, mem_map] at member
  rcases member with ⟨d, _, rfl⟩ | ⟨d, _, rfl⟩
  · exact .byQuery _ _
  · exact .exceptIds _ _ _

/-- The buffer is untouched because a stop was requested. -/
def Stopped (c₀ c : Connector κ) : Prop := c₀.stopping = true ∧ Held c₀ c

theorem postBulk_outcome (held : Held c₀ c) : Outcome (Connector.postBulk server fuel) c
      (fun stopped c' => if stopped then Stopped c₀ c' else Continues c₀ c' ∧ Flushed c₀ c'.events)
      (fun _ => Kept c₀) := by
  apply Outcome.get_bind
  split
  · rename_i empty
    have none : c₀.bulkData = [] := by
      rw [← held.bulkData]
      exact isEmpty_iff.mp empty
    exact Outcome.pure ⟨held.toContinues, flushed_of_empty none _⟩
  · cases stopping : c₀.stopping with
    | false =>
      refine (bulkLoop_outcome (.inl held) stopping).imp ?_
      rintro _ c' ⟨rfl, finished⟩
      exact ⟨finished.toContinues, finished.flushed⟩
    | true =>
      have stops : c.stopping = true := by rw [held.stopping, stopping]
      cases fuel with
      | zero => exact Outcome.throw held.kept
      | succ fuel =>
        rw [Connector.bulkLoop]
        apply Outcome.get_bind
        rw [if_pos stops]
        exact Outcome.pure ⟨stopping, held⟩

/-- One call of `processBulk`. Where it returns, the buffer has been sent and is empty, unless a
stop was requested; where it raises, the buffer is as it was or was sent, unless an answer made it
drop the buffer. -/
theorem processBulk_outcome (c : Connector κ) (fuel : Nat) :
    Outcome (Connector.processBulk server fuel) c (fun _ c' => Sent c c' ∨ Stopped c c')
      (fun _ => Kept c) := by
  have start := Held.refl c
  apply Outcome.get_bind
  refine require_outcome (fun _ => ?_) start.kept
  refine getNext_outcome (fun e => ?_) (fun e => (start.logged e).kept)
  apply Outcome.bind
  have deletes : Outcome (c.deleteRequests.forM (Connector.postDelete server)) (c.log e)
      (fun _ => Held c) (fun _ => Kept c) := by
    apply Outcome.forM
    · intro request member t held
      exact postDelete_outcome held (deleteRequests_delete c member)
    · exact start.logged e
  refine deletes.imp ?_
  intro _ c₁ held
  refine (postBulk_outcome held).andThen ?_
  intro stopped c₂ posted
  cases stopped with
  | true => exact Outcome.pure (.inr posted)
  | false =>
    obtain ⟨continues, flushed⟩ := posted
    apply Outcome.modify
    exact .inl ⟨continues.congr rfl rfl rfl rfl, rfl, rfl, flushed⟩

end GuardSarm.Indexer
