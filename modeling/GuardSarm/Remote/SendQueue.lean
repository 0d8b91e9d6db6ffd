import GuardSarm.Lib.Steps
import GuardSarm.Shared.BqueueRefines

/-!
# The send queue of a connection

`nb_queue` puts frames into the binary queue of a socket and asks for write
interest when the queue was empty; `nb_send` passes the front of the queue to
`send`, drops what was accepted and gives the interest up when the queue is
empty. Each call holds the mutex from start to end, but for `nb_queue`, which
releases it once before it tries again. A step is what a thread does while it
holds the mutex; `none` is undefined behaviour of the binary queue.
-/

namespace GuardSarm.Remote.SendQueue

open List Option

open Bqueue

/-- `send_chunk` and `send_buffer_size`, in the ranges that the configuration accepts. -/
structure SendConfig where
  sendChunk : Nat
  sendBufferSize : Nat
  chunk_range : 512 ≤ sendChunk ∧ sendChunk ≤ 16384
  size_range : 65536 ≤ sendBufferSize ∧ sendBufferSize ≤ 1048576

/-- The argument of `wnotify_modify`: `WO_READ`, or with `WO_WRITE`. -/
inductive Interest where
  | read
  | readWrite
  deriving DecidableEq

/-- The length in four bytes, the lowest first, and the payload. -/
def frame (msg : List UInt8) : List UInt8 :=
  [UInt8.ofNat msg.length, UInt8.ofNat (msg.length / 2 ^ 8), UInt8.ofNat (msg.length / 2 ^ 16),
    UInt8.ofNat (msg.length / 2 ^ 24)] ++ msg

/-- A socket: its queue, the last `wnotify_modify`, and the frames of the calls of
`nb_queue` that sleep, by thread. The other fields record the life of the socket
since `nb_open`: the frames of the calls that returned 0 in the order they took
effect, the bytes that `send` accepted, and for each call of `send` what had been
accepted before and what was passed to it. -/
structure Socket where
  bqueue : Option (Queue UInt8)
  interest : Option Interest
  sleeping : Nat → Option (List UInt8)
  queued : List (List UInt8)
  accepted : List UInt8
  offers : List (List UInt8 × List UInt8)

def Socket.init : Socket := ⟨none, none, fun _ => none, [], [], []⟩

inductive Act where
  | nbOpen
  | nbClose
  /-- `send` returns -1 (`none`) or accepts at most this many bytes. -/
  | nbSend (result : Option Nat)
  /-- A call up to its end or its sleep, with what the allocator returns. -/
  | nbQueue (thread : Nat) (msg : List UInt8) (fresh : Nat → UInt8)
  | retry (thread : Nat) (fresh : Nat → UInt8)

/-- The end of `nb_send`: interest in writing is given up when nothing is left. -/
def settle (s : Socket) (peeked : List UInt8) (q : Queue UInt8) : Socket :=
  { s with
    bqueue := some q
    interest := if peeked.length = 0 ∨ q.used = 0 then some .read else s.interest }

def nbSend (config : SendConfig) (s : Socket) (result : Option Nat) : Option Socket :=
  match s.bqueue with
  | none => some s
  | some q => do
    let peeked ← q.peek config.sendChunk
    if 0 < peeked.length then
      let s := { s with offers := s.offers ++ [(s.accepted, peeked)] }
      let sent := peeked.take (result.getD 0)
      if 0 < sent.length then
        let dropped ← q.drop sent.length
        return settle { s with accepted := s.accepted ++ sent } peeked dropped.2
      else return settle s peeked q
    else return settle s peeked q

/-- One attempt of `nb_queue`: `none` when there is no space. -/
def attempt (s : Socket) (q : Queue UInt8) (data : List UInt8) (fresh : Nat → UInt8) :
    Option (Option Socket) := do
  let (result, q) ← q.push data fresh
  if result = 0 then
    return some { s with
      bqueue := some q
      queued := s.queued ++ [data]
      interest := if q.used = data.length then some .readWrite else s.interest }
  else return none

def step (config : SendConfig) (s : Socket) : Act → Option Socket
  | .nbOpen => some { s with
      bqueue := bqueueInit config.sendBufferSize true, queued := [], accepted := [], offers := [] }
  | .nbClose => some { s with bqueue := none, queued := [], accepted := [], offers := [] }
  | .nbSend result => nbSend config s result
  | .nbQueue thread msg fresh =>
    match s.sleeping thread, s.bqueue with
    | none, some q => do
      match ← attempt s q (frame msg) fresh with
      | some after => return after
      | none => return { s with sleeping := Function.update s.sleeping thread (some (frame msg)) }
    | _, _ => some s
  | .retry thread fresh =>
    match s.sleeping thread, s.bqueue with
    | some data, some q => do
      let s := { s with sleeping := Function.update s.sleeping thread none }
      match ← attempt s q data fresh with
      | some after => return after
      | none => return s
    | some _, none => some { s with sleeping := Function.update s.sleeping thread none }
    | none, _ => some s

/-- What was accepted and what the queue holds are the queued frames, every offer
followed what was accepted before it, and a queue that is not empty has write
interest. -/
structure InStep (s : Socket) : Prop where
  queue : ∀ q, s.bqueue = some q → 1 < q.maxLength ∧ ∃ content, Represents q content ∧
    s.queued.flatten = s.accepted ++ content ∧ (content ≠ [] → s.interest = some .readWrite)
  closed : s.bqueue = none → s.accepted = []
  offers : ∀ offer ∈ s.offers, offer.1 ++ offer.2 <+: s.queued.flatten

variable {config : SendConfig} {s : Socket}

/-- The end of `nb_send` keeps the interest in step with the queue. -/
theorem settle_inStep {q : Queue UInt8} {content peeked : List UInt8} (limit : 1 < q.maxLength)
    (represents : Represents q content) (stream : s.queued.flatten = s.accepted ++ content)
    (interest : content ≠ [] → peeked ≠ [] ∧ s.interest = some .readWrite)
    (offers : ∀ offer ∈ s.offers, offer.1 ++ offer.2 <+: s.queued.flatten) :
    InStep (settle s peeked q) where
  queue := by
    rintro _ ⟨⟩
    refine ⟨limit, content, represents, stream, ?_⟩
    intro filled
    obtain ⟨something, writing⟩ := interest filled
    have used : q.used ≠ 0 := by
      rw [represents.used_eq]
      simpa using filled
    simp only [settle]
    rw [if_neg (by simp [something, used]), writing]
  closed := nofun
  offers := offers

theorem nbSend_inStep (config : SendConfig) (inStep : InStep s) (result : Option Nat) :
    ∃ after, nbSend config s result = some after ∧ InStep after := by
  unfold nbSend
  cases opened : s.bqueue with
  | none => exact ⟨s, rfl, inStep⟩
  | some q =>
    obtain ⟨limit, content, represents, stream, interest⟩ := inStep.queue q opened
    have chunk := config.chunk_range
    simp only [peek_spec represents, Option.bind_eq_bind, Option.bind_some, Option.pure_def]
    by_cases filled : content = []
    · subst filled
      exact ⟨settle s [] q, by simp, settle_inStep limit represents stream (by simp) inStep.offers⟩
    · have front : content.take config.sendChunk ≠ [] := by
        rw [Ne, take_eq_nil_iff]
        rintro (zero | nothing)
        · omega
        · exact filled nothing
      have offers : ∀ offer ∈ s.offers ++ [(s.accepted, content.take config.sendChunk)],
          offer.1 ++ offer.2 <+: s.queued.flatten := by
        intro offer member
        obtain old | rfl := mem_append.1 member |>.imp_right mem_singleton.1
        · exact inStep.offers offer old
        · rw [stream]
          exact (prefix_append_right_inj _).2 ( take_prefix _ _)
      rw [if_pos (length_pos_iff.2 front)]
      by_cases some : 0 < ((content.take config.sendChunk).take (result.getD 0)).length
      · have inside : ((content.take config.sendChunk).take (result.getD 0)).length ≤
            content.length := by
          simp only [length_take]
          omega
        obtain ⟨after, dropped, becomes⟩ := drop_spec represents some inside
        rw [if_pos some, dropped]
        refine ⟨_, rfl, settle_inStep (by rw [becomes.maxLength]; exact limit) becomes.represents
          ?_ (fun _ => ⟨front, interest filled⟩) offers⟩
        have sent : (content.take config.sendChunk).take (result.getD 0) =
            content.take ((content.take config.sendChunk).take (result.getD 0)).length := by
          rw [take_take, length_take, take_eq_take_min]
        simp only [append_assoc, stream]
        nth_rewrite 1 [sent]
        rw [take_append_drop]
      · rw [if_neg some]
        exact ⟨_, rfl, settle_inStep limit represents stream
          (fun _ => ⟨front, interest filled⟩) offers⟩

/-- An attempt of `nb_queue` is defined; if there is space the frame is queued. -/
theorem attempt_inStep (inStep : InStep s) {q : Queue UInt8} (opened : s.bqueue = some q)
    (data : List UInt8) (fresh : Nat → UInt8) :
    ∃ outcome, attempt s q data fresh = some outcome ∧ ∀ after, outcome = some after →
      InStep after := by
  obtain ⟨limit, content, represents, stream, interest⟩ := inStep.queue q opened
  obtain ⟨after, pushed, becomes⟩ := push_spec represents limit data fresh
  unfold attempt
  simp only [pushed, Option.bind_eq_bind, Option.bind_some, Option.pure_def]
  by_cases fits : content.length + data.length ≤ q.maxLength - 1
  · rw [if_pos fits] at becomes
    rw [if_pos (if_pos fits)]
    refine ⟨_, rfl, ?_⟩
    rintro _ ⟨⟩
    refine ⟨?_, nofun, ?_⟩
    · rintro _ ⟨⟩
      refine ⟨by rw [becomes.maxLength]; exact limit, content ++ data, becomes.represents, ?_, ?_⟩
      · simp only [flatten_append, flatten_singleton, stream, append_assoc]
      · intro _
        simp only [becomes.represents.used_eq, length_append]
        split
        next => rfl
        next busy =>
          refine interest ?_
          rintro rfl
          simp at busy
    · intro offer member
      rw [flatten_append]
      exact (inStep.offers offer member).trans (prefix_append _ _)
  · rw [if_neg fits, if_neg (by decide)]
    exact ⟨none, rfl, by simp⟩

theorem InStep.sleep (inStep : InStep s) (sleeping : Nat → Option (List UInt8)) :
    InStep { s with sleeping } :=
  ⟨inStep.queue, inStep.closed, inStep.offers⟩

/-- Every step is defined and keeps queue, stream and interest in step. -/
theorem step_inStep (config : SendConfig) (inStep : InStep s) (a : Act) :
    ∃ after, step config s a = some after ∧ InStep after := by
  cases a with
  | nbOpen =>
    have size := config.size_range
    refine ⟨_, rfl, ?_, fun _ => rfl, by simp⟩
    intro q opened
    rw [bqueueInit, if_neg (by omega)] at opened
    cases opened
    refine ⟨by simp only; omega, [], ⟨rfl, Nat.zero_le _, .inl ⟨rfl, rfl, rfl⟩, rfl, by simp⟩, rfl, ?_⟩
    intro filled
    exact absurd rfl filled
  | nbClose => exact ⟨_, rfl, by simp, fun _ => rfl, by simp⟩
  | nbSend result => exact nbSend_inStep config inStep result
  | nbQueue thread msg fresh =>
    simp only [step]
    cases s.sleeping thread with
    | some data => exact ⟨s, rfl, inStep⟩
    | none =>
      cases opened : s.bqueue with
      | none => exact ⟨s, rfl, inStep⟩
      | some q =>
        obtain ⟨outcome, tried, kept⟩ := attempt_inStep inStep opened (frame msg) fresh
        have asleep := inStep.sleep (Function.update s.sleeping thread (some (frame msg)))
        rw [opened] at asleep
        simp only [tried, bind_eq_bind, bind_some]
        cases outcome with
        | none => exact ⟨_, rfl, asleep⟩
        | some after => exact ⟨after, rfl, kept after rfl⟩
  | retry thread fresh =>
    simp only [step]
    cases s.sleeping thread with
    | none => exact ⟨s, rfl, inStep⟩
    | some data =>
      have awake := inStep.sleep (Function.update s.sleeping thread none)
      cases opened : s.bqueue with
      | none =>
        rw [opened] at awake
        exact ⟨_, rfl, awake⟩
      | some q =>
        rw [opened] at awake
        obtain ⟨outcome, tried, kept⟩ := attempt_inStep awake rfl data fresh
        simp only [tried, bind_eq_bind, bind_some]
        cases outcome with
        | none => exact ⟨_, rfl, awake⟩
        | some after => exact ⟨after, rfl, kept after rfl⟩

theorem run_inStep (config : SendConfig) (as : List Act) :
    ∃ s, execute (step config) Socket.init as = some s ∧ InStep s := by
  induction as using List.reverseRecOn with
  | nil => exact ⟨_, rfl, by simp [Socket.init], fun _ => rfl, by simp [Socket.init]⟩
  | append_singleton as a ih =>
    obtain ⟨s, ran, inStep⟩ := ih
    obtain ⟨after, moved, kept⟩ := step_inStep config inStep a
    refine ⟨after, ?_, kept⟩
    rw [execute] at ran ⊢
    rw [foldlM_append, ran]
    simp [moved]

end GuardSarm.Remote.SendQueue
