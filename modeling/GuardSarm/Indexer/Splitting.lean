import GuardSarm.Lib.Segments
import GuardSarm.Indexer.Delivery

/-!
# Splitting a bulk request

An indexer that refuses a body longer than its limit makes the connector split
the buffer. The first split is right. A chunk that is split again is split at
positions of the whole buffer, so that its second half runs to the end of the
buffer and its first half starts at the beginning of it.
-/

namespace GuardSarm.Indexer

open List

open Segments

variable {κ : Type}

/-- The buffer holds the operations one after another, and the boundaries are their ends. -/
structure Buffered (c : Connector κ) (operations : List Text) : Prop where
  nonempty : ∀ text ∈ operations, text ≠ []
  bulkData : c.bulkData = operations.flatten
  boundaries : c.boundaries = ends operations

/-- The indexer refuses a bulk body longer than the limit with 413 and accepts anything else. -/
structure Limited (server : Server) (limit : Nat) : Prop where
  available : ∀ events, server.available events = true
  refuses : ∀ events (body : Text), limit < body.length →
    ∃ error, server.reply events (.bulk body) = .error error 413
  accepts : ∀ events (body : Text), body.length ≤ limit →
    ∃ response, server.reply events (.bulk body) = .success response ∧
      validateBulkResponse response = true
  deletes : ∀ events request, (∀ body, request ≠ .bulk body) →
    ∃ response, server.reply events request = .success response

/-- The body of a bulk request, accepted or not. -/
def Event.bulkBody : Event → Option Text
  | .post (.bulk body) _ => some body
  | _ => none

def acceptedBodies (events : List Event) : List Text := events.filterMap Event.acceptedBody

def acceptedSize (events : List Event) : Nat := (acceptedBodies events).flatten.length

/-- The operations went out in accepted bodies, in order and each in one of them. -/
structure Delivered (operations : List Text) (events : List Event) : Prop where
  whole : (acceptedBodies events).flatten = operations.flatten
  nonempty : ∀ e ∈ events, e.bulkBody ≠ some []
  once : ∃ groups : List (List Text), groups.flatten = operations ∧
    acceptedBodies events = groups.map List.flatten

@[simp] theorem acceptedBodies_append (events events' : List Event) :
    acceptedBodies (events ++ events') = acceptedBodies events ++ acceptedBodies events' :=
  List.filterMap_append

@[simp] theorem acceptedSize_append (events events' : List Event) :
    acceptedSize (events ++ events') = acceptedSize events + acceptedSize events' := by
  simp [acceptedSize]

theorem acceptedBodies_asked (available : Bool) (e : Event) :
    acceptedBodies [.getNext available, e] = e.acceptedBody.toList := by
  rw [acceptedBodies, filterMap_cons_none rfl]
  cases accepted : e.acceptedBody with
  | none => rw [filterMap_cons_none accepted]; rfl
  | some body => rw [filterMap_cons_some accepted]; rfl

/-- Events without a bulk request have no accepted body. -/
theorem acceptedBodies_eq_nil {events : List Event} (other : ∀ e ∈ events, e.bulkBody = none) :
    acceptedBodies events = [] := by
  refine filterMap_eq_nil_iff.mpr fun e member => ?_
  have none := other e member
  cases e with
  | getNext available => rfl
  | post request reply =>
    cases request with
    | bulk body => cases none
    | deleteByQuery | deleteByQueryExceptIds | updateByQuery => rfl

/-- The events are what was exchanged between two states with the same buffer. -/
structure Exchanged (c : Connector κ) (events : List Event) (c' : Connector κ) : Prop where
  events : c'.events = c.events ++ events
  bulkData : c'.bulkData = c.bulkData
  boundaries : c'.boundaries = c.boundaries
  stopping : c'.stopping = c.stopping

theorem Exchanged.logged (c : Connector κ) (e : Event) : Exchanged c [e] (c.log e) :=
  ⟨rfl, rfl, rfl, rfl⟩

theorem Exchanged.trans {c c' c'' : Connector κ} {events events' : List Event}
    (first : Exchanged c events c') (second : Exchanged c' events' c'') :
    Exchanged c (events ++ events') c'' :=
  ⟨by rw [second.events, first.events, List.append_assoc], second.bulkData.trans first.bulkData,
    second.boundaries.trans first.boundaries, second.stopping.trans first.stopping⟩

section Limited

variable {server : Server} {limit fuel : Nat} {c : Connector κ} {data : Text}
  {boundaries : List Nat}

variable {R : ConnectorError → Connector κ → Prop}

theorem getNext_limited (limited : Limited server limit) {α : Type} {Q : α → Connector κ → Prop}
    {f : Unit → Connector.Action κ α} (returns : Outcome (f ()) (c.log (.getNext true)) Q R) :
    Outcome (Connector.getNext server >>= f) c Q R := by
  apply Outcome.bind
  apply Outcome.get_bind
  apply Outcome.modify_bind
  rw [limited.available]
  exact Outcome.pure returns

theorem chunkLoop_fits (limited : Limited server limit) (goes : c.stopping = false)
    (fits : data.length ≤ limit) : Outcome (Connector.chunkLoop server (fuel + 1) data boundaries) c
      (fun _ c' => ∃ reply, Exchanged c [.post (.bulk data) reply] c' ∧
        Event.acceptedBody (.post (.bulk data) reply) = some data) (fun _ _ => False) := by
  apply Outcome.get_bind
  simp only [goes, Bool.false_eq_true, if_false]
  apply post_answer
  obtain ⟨response, answered, valid⟩ := limited.accepts c.events data fits
  simp only [answered, valid]
  exact Outcome.pure ⟨_, .logged c _, by simp [Event.acceptedBody, valid]⟩

/-- A chunk that returns has sent its bytes, and if it had to be split, as many as the buffer
holds. -/
theorem chunkLoop_size (limited : Limited server limit) (goes : c.stopping = false)
    (part : data.length ≤ c.bulkData.length) :
    Outcome (Connector.chunkLoop server fuel data boundaries) c
      (fun _ c' => ∃ events, Exchanged c events c' ∧ data.length ≤ acceptedSize events ∧
        (limit < data.length → c.bulkData.length ≤ acceptedSize events)) (fun _ _ => True) := by
  induction fuel generalizing c data boundaries with
  | zero => exact Outcome.throw trivial
  | succ fuel ih =>
    by_cases fits : data.length ≤ limit
    · refine (chunkLoop_fits limited goes fits).mono ?_ (fun _ _ _ => trivial)
      rintro _ c' ⟨reply, exchanged, accepted⟩
      refine ⟨_, exchanged, ?_, fun large => absurd fits (by omega)⟩
      simp [acceptedSize, acceptedBodies, accepted]
    · rw [Connector.chunkLoop]
      apply Outcome.get_bind
      simp only [goes, Bool.false_eq_true, if_false]
      apply post_answer
      obtain ⟨error, answered⟩ := limited.refuses c.events data (by omega)
      simp only [answered, if_true]
      have refused := Exchanged.logged c (.post (.bulk data) (.error error 413))
      split
      · apply Outcome.bind
        apply Outcome.get_bind
        rw [refused.bulkData]
        split
        · exact Outcome.throw trivial
        · rename_i within
          apply getNext_limited limited
          have asked := refused.trans (.logged _ (.getNext true))
          apply Outcome.bind
          refine (ih (asked.stopping.trans goes) ?_).mono ?_ (fun _ _ _ => trivial)
          · rw [asked.bulkData, length_take]; omega
          rintro _ c₁ ⟨events₁, first, size₁, -⟩
          apply getNext_limited limited
          have again := (asked.trans first).trans (.logged _ (.getNext true))
          refine (ih (again.stopping.trans goes) ?_).mono ?_ (fun _ _ _ => trivial)
          · rw [again.bulkData, length_drop]; omega
          rintro _ c₂ ⟨events₂, second, size₂, -⟩
          have whole : c.bulkData.length ≤ acceptedSize events₁ + acceptedSize events₂ := by
            simp only [length_take, length_drop] at size₁ size₂
            omega
          refine ⟨_, again.trans second, ?_, fun _ => ?_⟩
          · simp only [acceptedSize_append]; omega
          · simp only [acceptedSize_append]; omega
      · exact Outcome.throw trivial

theorem postDelete_limited (limited : Limited server limit) {request : Request}
    (delete : request.IsDelete) : Outcome (Connector.postDelete server request) c
      (fun _ c' => ∃ reply, Exchanged c [.post request reply] c') R := by
  apply post_answer
  obtain ⟨response, answered⟩ := limited.deletes c.events request (by cases delete <;> simp)
  simp only [answered]
  exact Outcome.pure ⟨_, .logged c _⟩

variable {P : List Event → Prop}

/-- The calls of `processBulk` before the buffer is posted send no bulk request. -/
theorem processBulk_posts (limited : Limited server limit) (some : c.bulkData ≠ [])
    (posts : ∀ events c₁, Exchanged c events c₁ → (∀ e ∈ events, e.bulkBody = none) →
      Outcome (Connector.bulkLoop server fuel false) c₁ (fun _ c' => P c'.events) R) :
    Outcome (Connector.processBulk server fuel) c (fun _ c' => P c'.events) R := by
  apply Outcome.get_bind
  apply Outcome.bind
  have pending : c.hasData = true := by simp [Connector.hasData, some]
  rw [pending]
  apply getNext_limited limited
  apply Outcome.bind
  have deletes : Outcome (c.deleteRequests.forM (Connector.postDelete server))
      (c.log (.getNext true))
      (fun _ t => ∃ events, Exchanged c events t ∧ ∀ e ∈ events, e.bulkBody = none) R := by
    apply Outcome.forM
    · rintro request member t ⟨events, exchanged, other⟩
      have delete := deleteRequests_delete c member
      refine (postDelete_limited limited delete).imp ?_
      rintro _ t' ⟨reply, answered⟩
      refine ⟨_, exchanged.trans answered, ?_⟩
      intro e among
      rcases mem_append.mp among with old | new
      · exact other e old
      · obtain rfl := mem_singleton.mp new
        cases delete <;> rfl
    · exact ⟨_, .logged c _, by simp [Event.bulkBody]⟩
  refine deletes.imp ?_
  rintro _ c₁ ⟨events, exchanged, other⟩
  apply Outcome.bind
  apply Outcome.get_bind
  have filled : c₁.bulkData.isEmpty = false := by simp [exchanged.bulkData, some]
  rw [filled]
  refine (posts events c₁ exchanged other).imp ?_
  intro stopped c' met
  cases stopped with
  | true => exact Outcome.pure met
  | false => exact Outcome.modify met

variable {operations : List Text}

/-- The whole buffer, or each half of the operations, fits into one request. -/
def FitsSplit (limit : Nat) (operations : List Text) : Prop :=
  operations.flatten.length ≤ limit ∨
    (operations.take (operations.length / 2)).flatten.length ≤ limit ∧
    (operations.drop (operations.length / 2)).flatten.length ≤ limit

theorem Buffered.exchanged {events : List Event} {c' : Connector κ} (buffered : Buffered c operations)
    (exchanged : Exchanged c events c') : Buffered c' operations :=
  ⟨buffered.nonempty, exchanged.bulkData.trans buffered.bulkData,
    exchanged.boundaries.trans buffered.boundaries⟩

theorem Buffered.halves_ne_nil (buffered : Buffered c operations)
    (several : 1 < operations.length) : (operations.take (operations.length / 2)).flatten ≠ [] ∧
      (operations.drop (operations.length / 2)).flatten ≠ [] := by
  constructor
  · refine flatten_ne_nil (ne_nil_of_length_pos ?_) fun text member =>
      buffered.nonempty text (mem_of_mem_take member)
    rw [length_take]
    omega
  · refine flatten_ne_nil (ne_nil_of_length_pos ?_) fun text member =>
      buffered.nonempty text (mem_of_mem_drop member)
    rw [length_drop]
    omega

theorem processHalf_chunk (filled : data ≠ []) (some : boundaries ≠ []) :
    (Connector.processHalf server fuel data boundaries : Connector.Action κ Unit) =
      Connector.processBulkChunk server fuel data boundaries := by
  rw [Connector.processHalf, if_pos (by simp [filled, some])]

instance (limit : Nat) (operations : List Text) : Decidable (FitsSplit limit operations) :=
  inferInstanceAs (Decidable (_ ∨ _ ∧ _))

/-- The split sends the two halves of the operations as chunks. -/
theorem splitAndProcessBulk_halves (buffered : Buffered c operations)
    (several : 1 < operations.length) (sends : Outcome (Connector.processBulkChunk server fuel
        (operations.take (operations.length / 2)).flatten
        ((ends operations).take (operations.length / 2))) c
      (fun _ c₁ => Outcome (Connector.processBulkChunk server fuel
          (operations.drop (operations.length / 2)).flatten
          ((ends operations).drop (operations.length / 2))) c₁ (fun _ c' => P c'.events) R) R) :
    Outcome (Connector.splitAndProcessBulk server fuel) c (fun _ c' => P c'.events) R := by
  have position : (ends operations).getD (operations.length / 2 - 1) 0 =
      (operations.take (operations.length / 2)).flatten.length := by
    rw [getD_ends (by omega), Nat.sub_add_cancel (by omega)]
  have within := congrArg List.length (flatten_split operations (operations.length / 2))
  rw [length_append] at within
  obtain ⟨first, second⟩ := buffered.halves_ne_nil several
  apply Outcome.get_bind
  simp only [buffered.boundaries, length_ends, position]
  apply Outcome.bind
  rw [Connector.require, if_pos (by simpa using several)]
  apply Outcome.bind
  apply Outcome.get_bind
  rw [if_neg (by rw [buffered.bulkData]; omega), buffered.bulkData, take_flatten, drop_flatten]
  apply Outcome.bind
  rw [processHalf_chunk first (ne_nil_of_length_pos (by
    rw [length_take, length_ends]; omega))]
  refine sends.imp ?_
  intro _ c₁ sends₁
  apply Outcome.bind
  rw [processHalf_chunk second (ne_nil_of_length_pos (by
    rw [length_drop, length_ends]; omega))]
  refine sends₁.imp ?_
  intro _ c₂ met
  exact Outcome.bind (Outcome.modify (Outcome.modify met))

/-- What a run of the loop over the buffer leads to: one request, or one for each half. -/
theorem bulkLoop_cases (limited : Limited server limit) (buffered : Buffered c operations)
    (goes : c.stopping = false) (small : ∀ text ∈ operations, text.length ≤ limit)
    (accepts : operations.flatten.length ≤ limit → ∀ reply,
      Event.acceptedBody (.post (.bulk operations.flatten) reply) = some operations.flatten →
      P (c.events ++ [.getNext true, .post (.bulk operations.flatten) reply]))
    (splits : limit < operations.flatten.length → 1 < operations.length → ∀ reply c₁,
      Event.acceptedBody (.post (.bulk operations.flatten) reply) = none →
      Exchanged c [.getNext true, .post (.bulk operations.flatten) reply] c₁ →
      Outcome (Connector.splitAndProcessBulk server fuel) c₁ (fun _ c' => P c'.events) R) :
    Outcome (Connector.bulkLoop server (fuel + 1) false) c (fun _ c' => P c'.events) R := by
  apply Outcome.get_bind
  simp only [goes, Bool.false_eq_true, if_false]
  apply getNext_limited limited
  apply Outcome.get_bind
  have asked := Exchanged.logged c (.getNext true)
  rw [asked.bulkData, buffered.bulkData]
  apply post_answer
  by_cases fits : operations.flatten.length ≤ limit
  · obtain ⟨response, answered, valid⟩ := limited.accepts (c.log (.getNext true)).events _ fits
    simp only [answered, Connector.onBulkReply, valid, if_true]
    apply Outcome.bind
    apply Outcome.modify_bind
    have met := accepts fits (.success response) (by simp [Event.acceptedBody, valid])
    simpa [Outcome, Connector.log] using met
  · have large : limit < operations.flatten.length := by omega
    have several : 1 < operations.length := by
      by_contra few
      rcases operations with _ | ⟨text, _ | ⟨_, _⟩⟩
      · simp at large
      · have := small text (by simp)
        simp at large
        omega
      · simp at few
    obtain ⟨error, answered⟩ := limited.refuses (c.log (.getNext true)).events _ large
    simp only [answered, Connector.onBulkReply, if_true]
    have refused := asked.trans
      (.logged _ (.post (.bulk operations.flatten) (.error error 413)))
    apply Outcome.bind
    apply Outcome.get_bind
    rw [if_neg (by rw [refused.boundaries, buffered.boundaries, length_ends]; omega)]
    refine (splits large several _ _ rfl refused).andThen ?_
    intro _ c₂ met
    exact Outcome.pure (Outcome.pure met)

theorem processBulkChunk_fits (limited : Limited server limit) (goes : c.stopping = false)
    (fits : data.length ≤ limit) :
    Outcome (Connector.processBulkChunk server (fuel + 1) data boundaries) c
      (fun _ c' => ∃ reply, Exchanged c [.getNext true, .post (.bulk data) reply] c' ∧
        Event.acceptedBody (.post (.bulk data) reply) = some data) (fun _ _ => False) := by
  apply getNext_limited limited
  have asked := Exchanged.logged c (.getNext true)
  refine (chunkLoop_fits limited (asked.stopping.trans goes) fits).imp ?_
  rintro _ c' ⟨reply, exchanged, accepted⟩
  exact ⟨reply, asked.trans exchanged, accepted⟩

theorem processBulkChunk_size (limited : Limited server limit) (goes : c.stopping = false)
    (part : data.length ≤ c.bulkData.length) :
    Outcome (Connector.processBulkChunk server fuel data boundaries) c
      (fun _ c' => ∃ events, Exchanged c events c' ∧ data.length ≤ acceptedSize events ∧
        (limit < data.length → c.bulkData.length ≤ acceptedSize events)) (fun _ _ => True) := by
  apply getNext_limited limited
  have asked := Exchanged.logged c (.getNext true)
  refine (chunkLoop_size limited (asked.stopping.trans goes) (asked.bulkData ▸ part)).imp ?_
  rintro _ c' ⟨events, exchanged, size, split⟩
  refine ⟨_, asked.trans exchanged, ?_, fun large => ?_⟩
  · rw [acceptedSize_append]; omega
  · have := split large
    rw [asked.bulkData] at this
    rw [acceptedSize_append]; omega

theorem Delivered.of_groups {events : List Event} (groups : List (List Text))
    (split : groups.flatten = operations) (bodies : acceptedBodies events = groups.map List.flatten)
    (nonempty : ∀ e ∈ events, e.bulkBody ≠ some []) : Delivered operations events := by
  refine ⟨?_, nonempty, groups, split, bodies⟩
  rw [bodies, ← split, flatten_flatten]

/-- Where one split is enough, every operation is delivered once. -/
theorem processBulk_delivers (limited : Limited server limit) (buffered : Buffered c operations)
    (some : operations ≠ []) (small : ∀ text ∈ operations, text.length ≤ limit)
    (goes : c.stopping = false) (fits : FitsSplit limit operations) :
    Outcome (Connector.processBulk server (fuel + 2)) c
      (fun _ c' => Delivered operations (c'.events.drop c.events.length)) (fun _ _ => False) := by
  have filled := flatten_ne_nil some buffered.nonempty
  apply processBulk_posts (P := fun events => Delivered operations (events.drop c.events.length))
    limited (buffered.bulkData ▸ filled)
  intro events₀ c₀ before other
  have buffered₀ := buffered.exchanged before
  have goes₀ := before.stopping.trans goes
  have silent := acceptedBodies_eq_nil other
  have unposted : ∀ e ∈ events₀, e.bulkBody ≠ Option.some [] := by simp +contextual [other]
  apply bulkLoop_cases (P := fun events => Delivered operations (events.drop c.events.length))
    limited buffered₀ goes₀ small
  · intro _ reply accepted
    rw [before.events, append_assoc, drop_left]
    refine .of_groups [operations] (by simp) ?_ ?_
    · simp [silent, acceptedBodies_asked, accepted]
    · simpa [or_imp, forall_and, Event.bulkBody, filled] using unposted
  · intro large several reply c₁ refused posted
    obtain ⟨first, second⟩ := fits.resolve_left (by omega)
    obtain ⟨filled₁, filled₂⟩ := buffered.halves_ne_nil several
    have buffered₁ := buffered₀.exchanged posted
    apply splitAndProcessBulk_halves
      (P := fun events => Delivered operations (events.drop c.events.length)) buffered₁ several
    refine (processBulkChunk_fits limited (posted.stopping.trans goes₀) first).imp ?_
    rintro _ c₂ ⟨reply₁, sent₁, accepted₁⟩
    have exchanged₁ := (before.trans posted).trans sent₁
    refine (processBulkChunk_fits limited (exchanged₁.stopping.trans goes) second).imp ?_
    rintro _ c₃ ⟨reply₂, sent₂, accepted₂⟩
    rw [(exchanged₁.trans sent₂).events, drop_left]
    refine .of_groups [operations.take (operations.length / 2),
      operations.drop (operations.length / 2)] (by simp) ?_ ?_
    · simp only [acceptedBodies_append, silent, acceptedBodies_asked, refused, accepted₁, accepted₂]
      rfl
    · simpa [or_imp, forall_and, Event.bulkBody, filled, filled₁, filled₂] using unposted

/-- Bytes are sent twice unless one split is enough. -/
theorem processBulk_size (limited : Limited server limit) (buffered : Buffered c operations)
    (some : operations ≠ []) (small : ∀ text ∈ operations, text.length ≤ limit) :
    Outcome (Connector.processBulk server (fuel + 2)) c
      (fun _ c' => acceptedSize (c'.events.drop c.events.length) = operations.flatten.length →
        c.stopping = false ∧ FitsSplit limit operations) (fun _ _ => True) := by
  have filled := flatten_ne_nil some buffered.nonempty
  have positive := length_pos_iff.mpr filled
  apply processBulk_posts (P := fun events => acceptedSize (events.drop c.events.length) =
    operations.flatten.length → c.stopping = false ∧ FitsSplit limit operations)
    limited (buffered.bulkData ▸ filled)
  intro events₀ c₀ before other
  have silent : acceptedSize events₀ = 0 := by rw [acceptedSize, acceptedBodies_eq_nil other]; rfl
  cases stopping : c.stopping with
  | true =>
    apply Outcome.get_bind
    rw [if_pos (before.stopping.trans stopping)]
    apply Outcome.pure
    rw [before.events, drop_left, silent]
    omega
  | false =>
    have buffered₀ := buffered.exchanged before
    have goes₀ := before.stopping.trans stopping
    apply bulkLoop_cases (P := fun events => acceptedSize (events.drop c.events.length) =
      operations.flatten.length → false = false ∧ FitsSplit limit operations)
      limited buffered₀ goes₀ small
    · exact fun whole _ _ _ => ⟨rfl, .inl whole⟩
    · intro _ several reply c₁ _ posted
      obtain ⟨filled₁, filled₂⟩ := buffered.halves_ne_nil several
      have buffered₁ := buffered₀.exchanged posted
      have parts := congrArg List.length (flatten_split operations (operations.length / 2))
      rw [length_append] at parts
      apply splitAndProcessBulk_halves (P := fun events =>
        acceptedSize (events.drop c.events.length) = operations.flatten.length →
          false = false ∧ FitsSplit limit operations) buffered₁ several
      refine (processBulkChunk_size limited (posted.stopping.trans goes₀)
        (by rw [buffered₁.bulkData]; omega)).imp ?_
      rintro _ c₂ ⟨events₁, sent₁, size₁, split₁⟩
      have exchanged₁ := (before.trans posted).trans sent₁
      have whole := exchanged₁.bulkData.trans buffered.bulkData
      refine (processBulkChunk_size limited (exchanged₁.stopping.trans stopping)
        (by rw [whole]; omega)).imp ?_
      rintro _ c₃ ⟨events₂, sent₂, size₂, split₂⟩ same
      rw [buffered₁.bulkData] at split₁
      rw [whole] at split₂
      rw [(exchanged₁.trans sent₂).events, drop_left] at same
      simp only [acceptedSize_append] at same
      have long₁ := length_pos_iff.mpr filled₁
      have long₂ := length_pos_iff.mpr filled₂
      refine ⟨rfl, .inr ⟨?_, ?_⟩⟩
      · by_contra large
        omega
      · by_contra large
        omega

/-- **Every operation is delivered exactly once where one split is enough**, and only there. -/
theorem processBulk_delivers_iff (limited : Limited server limit)
    (buffered : Buffered c operations) (some : operations ≠ [])
    (small : ∀ text ∈ operations, text.length ≤ limit) (enough : 2 ≤ fuel) :
    (∃ c', (Connector.processBulk server fuel).run c = .ok () c' ∧
      Delivered operations (c'.events.drop c.events.length)) ↔
    c.stopping = false ∧ FitsSplit limit operations := by
  obtain ⟨fuel, rfl⟩ := Nat.exists_eq_add_of_le' enough
  constructor
  · rintro ⟨c', returned, delivered⟩
    apply (processBulk_size limited buffered some small).of_ok returned
    rw [acceptedSize, delivered.whole]
  · rintro ⟨goes, fits⟩
    have delivers : Outcome (Connector.processBulk server (fuel + 2)) c
        (fun _ c' => Delivered operations (c'.events.drop c.events.length)) (fun _ _ => False) :=
      processBulk_delivers limited buffered some small goes fits
    cases ran : (Connector.processBulk server (fuel + 2)).run c with
    | ok value c' => exact ⟨c', rfl, delivers.of_ok ran⟩
    | error e c' => exact (delivers.of_error ran).elim

end Limited

/-- An indexer with a limit on the length of a body. -/
def Server.withLimit (limit : Nat) : Server where
  available := fun _ => true
  reply := fun _ request =>
    match request with
    | .bulk body => if limit < body.length then .error "Payload Too Large" 413 else .accepted
    | _ => .accepted

theorem withLimit_limited (limit : Nat) : Limited (Server.withLimit limit) limit where
  available := fun _ => rfl
  refuses := fun _ _ large => ⟨"Payload Too Large", if_pos large⟩
  accepts := fun _ _ fits => ⟨some (.object []), if_neg (by omega), by decide⟩
  deletes := by
    intro events request notBulk
    cases request with
    | bulk body => exact absurd rfl (notBulk body)
    | deleteByQuery | deleteByQueryExceptIds | updateByQuery => exact ⟨_, rfl⟩

/-- A connector that holds the operations and nothing else. -/
def Connector.holding (operations : List Text) : Connector Unit where
  bulkData := operations.flatten
  deleteByQuery := .empty
  staleDeleteByQuery := []
  notify := []
  boundaries := ends operations
  shouldNotifyAfterBulk := false
  stopping := false
  events := []
  appended := operations

theorem holding_buffered {operations : List Text} (nonempty : ∀ text ∈ operations, text ≠ []) :
    Buffered (Connector.holding operations) operations := ⟨nonempty, rfl, rfl⟩

/-- The operation that removes the document with the given id from the index `i`. -/
def deleteOf (id : Char) (number : Nat) : Text := (deleteText [id] ['i']).map (·, number)

theorem processBulk_delivers_iff_pair : ∃ c', (Connector.processBulk (.withLimit 40) 2).run
        (.holding [deleteOf 'a' 0, deleteOf 'b' 1]) = .ok () c' ∧
      Delivered [deleteOf 'a' 0, deleteOf 'b' 1] (c'.events.drop 0) :=
  (processBulk_delivers_iff (withLimit_limited 40) (holding_buffered (by decide)) (by decide)
    (by decide) (Nat.le_refl 2)).mpr ⟨rfl, by decide⟩

def threeDeletes : List Text := [deleteOf 'a' 0, deleteOf 'b' 1, deleteOf 'c' 2]

/-- An operation nearly as long as the limit of 120 and three short ones. -/
def longFirst : List Text :=
  [(indexText ['a'] ['i'] (List.replicate 75 'x') []).map (·, 0), deleteOf 'b' 1, deleteOf 'c' 2,
    deleteOf 'd' 3]

/-- Three operations of which two do not fit into one request raise an exception. Where the first
half must be split again, the second half is sent twice. -/
theorem second_split_wrong :
    (Limited (.withLimit 40) 40 ∧ Buffered (.holding threeDeletes) threeDeletes ∧
      (∀ text ∈ threeDeletes, text.length ≤ 40) ∧
      ∃ c', (Connector.processBulk (.withLimit 40) 5).run (.holding threeDeletes) =
        .error (.connectorException "Single operation exceeds server limits") c') ∧
    Limited (.withLimit 120) 120 ∧ Buffered (.holding longFirst) longFirst ∧
      (∀ text ∈ longFirst, text.length ≤ 120) ∧
      ∃ c', (Connector.processBulk (.withLimit 120) 5).run (.holding longFirst) = .ok () c' ∧
        acceptedBodies c'.events = [longFirst.take 1, longFirst.drop 1, longFirst.drop 2].map
          List.flatten := by
  have raised : (match (Connector.processBulk (.withLimit 40) 5).run (.holding threeDeletes) with
      | .error e _ => some e
      | .ok _ _ => none) =
      some (.connectorException "Single operation exceeds server limits") := by decide +kernel
  have returned : (match (Connector.processBulk (.withLimit 120) 5).run (.holding longFirst) with
      | .ok _ c' => some (acceptedBodies c'.events)
      | .error _ _ => none) =
      some ([longFirst.take 1, longFirst.drop 1, longFirst.drop 2].map List.flatten) := by
    decide +kernel
  refine ⟨⟨withLimit_limited 40, holding_buffered (by decide), by decide, ?_⟩,
    withLimit_limited 120, holding_buffered (by decide), by decide +kernel, ?_⟩
  · split at raised
    · rename_i e c' ran
      cases raised
      exact ⟨c', ran⟩
    · cases raised
  · split at returned
    · rename_i c' ran
      exact ⟨c', ran, Option.some.inj returned⟩
    · cases returned

end GuardSarm.Indexer
