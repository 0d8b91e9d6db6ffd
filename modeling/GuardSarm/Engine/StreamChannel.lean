import GuardSarm.Lib.Steps

/-!
# Failures of a log channel

`ChannelHandler` of `streamlog`: the writers, the worker thread and the procedures that start and
stop it share one atomic state. A rotation that succeeds changes nothing but the name of the file.
`stopWorkerThread` stores to the state whatever it is, before and after it waits for the worker, so
a channel that has failed is opened again when its last writer goes.
-/

namespace GuardSarm.StreamChannel

inductive ChannelState where
  | running | stopRequested | errorClosed
  deriving DecidableEq

/-- Where the worker stands: behind its loop, at the condition of the loop, in `waitPop`, before it
looks at the state again with a message in hand, or before it writes the message. -/
inductive Worker where
  | ended | loop | waiting
  | popped (message : String)
  | writing (message : String)
  deriving DecidableEq

/-- `failed`: the state has been `ErrorClosed`; `taken`: what was popped while it was `Running`. -/
structure Channel where
  state : ChannelState
  writers : Nat
  stopping : Bool
  worker : Worker
  queue : List String
  file : List String
  failed : Bool
  taken : List String
  deriving DecidableEq

def Channel.initial : Channel := ⟨.running, 0, false, .ended, [], [], false, []⟩

/-- `createWriter`; it raises when the channel is in the error state. -/
def Channel.createWriter (c : Channel) : Option Channel :=
  if c.state = .errorClosed then none
  else if c.writers = 0 then some { c with state := .running, worker := .loop, writers := 1 }
  else some { c with writers := c.writers + 1 }

/-- The answer of `ChannelWriter::operator()`. -/
def Channel.accepts (c : Channel) : Bool := c.state = .running

def Channel.fail (c : Channel) : Channel := { c with state := .errorClosed, failed := true }

inductive Act where
  | createWriter
  | message (text : String)
  | destroyWriter
  | joined
  | look
  | timeout
  | pop
  | rotationFails
  | lookAgain
  | write
  | writeFails

/-- The calls hold a mutex while the last writer waits for the worker. -/
def step (c : Channel) : Act → Option Channel
  | .createWriter => if c.stopping then none else some (c.createWriter.getD c)
  | .message text =>
    if c.writers = 0 then none
    else if c.accepts then some { c with queue := c.queue ++ [text] }
    else some c
  | .destroyWriter =>
    if c.writers = 0 then none
    else if c.writers = 1 then
      some { c with writers := 0, state := .stopRequested, stopping := true }
    else some { c with writers := c.writers - 1 }
  | .joined =>
    if c.stopping ∧ c.worker = .ended then
      some { c with state := .running, stopping := false, queue := [] }
    else none
  | .look =>
    if c.worker = .loop then
      some { c with worker := if c.state = .running then .waiting else .ended }
    else none
  | .timeout => if c.worker = .waiting then some { c with worker := .loop } else none
  | .pop =>
    match c.worker, c.queue with
    | .waiting, text :: queue => some { c with
        queue
        worker := if text = "" then .loop else .popped text
        taken := if c.state = .running then c.taken ++ [text] else c.taken }
    | _, _ => none
  | .rotationFails =>
    match c.worker with
    | .popped _ => some c.fail
    | _ => none
  | .lookAgain =>
    match c.worker with
    | .popped text => some { c with worker := if c.state = .running then .writing text else .ended }
    | _ => none
  | .write =>
    match c.worker with
    | .writing text => some { c with file := c.file ++ [text], worker := .loop }
    | _ => none
  | .writeFails =>
    match c.worker with
    | .writing _ => some { c.fail with worker := .loop }
    | _ => none

/-- What a failed channel refuses, and what the file of another one has: the messages popped, but
for the one in hand. -/
structure Sound (c : Channel) : Prop where
  closed : c.failed = true →
    c.createWriter = none ∧ c.accepts = false ∧ ∀ text, c.worker ≠ .writing text
  written : c.failed = false → c.taken = c.file ∨
    ∃ text, c.taken = c.file ++ [text] ∧ (c.worker = .popped text ∨ c.worker = .writing text)

def Worker.holds : Worker → Bool
  | .popped _ => true
  | _ => false

/-- No message is empty, the last writer goes while the channel runs and the worker has no message
to look at, and nothing fails once the worker is to stop. -/
def Meets (c : Channel) : Act → Prop
  | .message text => text ≠ ""
  | .destroyWriter => c.writers = 1 → c.state = .running ∧ c.worker.holds = false
  | .rotationFails | .writeFails => c.state = .running
  | _ => True

/-- The message in hand that will be written. -/
def Worker.hand : ChannelState → Worker → List String
  | _, .writing text | .running, .popped text => [text]
  | _, _ => []

/-- The states that a channel comes to. -/
inductive Kept : Channel → Prop
  | idle {file : List String} : Kept ⟨.running, 0, false, .ended, [], file, false, file⟩
  | busy {n : Nat} {worker : Worker} {queue file taken : List String} (messages : "" ∉ queue)
      (live : worker ≠ .ended) (hand : taken = file ++ worker.hand .running) :
      Kept ⟨.running, n + 1, false, worker, queue, file, false, taken⟩
  | stopping {worker : Worker} {queue file taken : List String} (messages : "" ∉ queue)
      (hand : taken = file ++ worker.hand .stopRequested) :
      Kept ⟨.stopRequested, 0, true, worker, queue, file, false, taken⟩
  | failed {n : Nat} {worker : Worker} {queue file taken : List String}
      (quiet : ∀ text, worker ≠ .writing text) :
      Kept ⟨.errorClosed, n + 1, false, worker, queue, file, true, taken⟩

variable {c c' : Channel} {act : Act}

/-- One step that meets the condition. -/
theorem step_kept (kept : Kept c) (meets : Meets c act) (moved : step c act = some c') :
    Kept c' := by
  cases kept with
  | idle =>
    cases act <;> cases moved
    exact .busy nofun nofun (List.append_nil _).symm
  | @busy n worker queue file taken messages live hand =>
    cases act with
    | createWriter =>
      cases moved
      exact .busy messages live hand
    | message text =>
      cases moved
      exact .busy (by simpa [messages] using Ne.symm meets) live hand
    | destroyWriter =>
      cases n with
      | zero =>
        cases moved
        have free := (meets rfl).2
        refine .stopping messages (hand.trans ?_)
        cases worker <;> first | rfl | cases free
      | succ n =>
        cases moved
        exact .busy messages live hand
    | joined => cases moved
    | look | timeout | lookAgain =>
      cases worker <;> cases moved
      exact .busy messages nofun hand
    | pop =>
      cases worker <;> cases queue <;> cases moved
      rw [List.mem_cons, not_or] at messages
      rw [if_neg (Ne.symm messages.1)]
      exact .busy messages.2 nofun (by simp [hand, Worker.hand])
    | rotationFails | writeFails =>
      cases worker <;> cases moved
      exact .failed nofun
    | write =>
      cases worker <;> cases moved
      exact .busy messages nofun (by simp [hand, Worker.hand])
  | @stopping worker queue file taken messages hand =>
    cases act with
    | createWriter | message | destroyWriter => cases moved
    | joined =>
      cases worker <;> cases moved
      obtain rfl : taken = file := hand.trans (List.append_nil _)
      exact .idle
    | look | timeout | lookAgain =>
      cases worker <;> cases moved
      exact .stopping messages hand
    | pop =>
      cases worker <;> cases queue <;> cases moved
      rw [List.mem_cons, not_or] at messages
      rw [if_neg (Ne.symm messages.1)]
      exact .stopping messages.2 hand
    | rotationFails | writeFails => cases meets
    | write =>
      cases worker <;> cases moved
      exact .stopping messages (by simp [hand, Worker.hand])
  | @failed n worker queue file taken quiet =>
    cases act with
    | createWriter | message =>
      cases moved
      exact .failed quiet
    | destroyWriter =>
      cases n with
      | zero => cases (meets rfl).1
      | succ n =>
        cases moved
        exact .failed quiet
    | joined => cases moved
    | look | timeout | lookAgain =>
      cases worker <;> cases moved
      exact .failed nofun
    | pop =>
      cases worker <;> cases queue <;> cases moved
      refine .failed ?_
      split <;> nofun
    | rotationFails | writeFails => cases meets
    | write =>
      cases worker <;> cases moved
      exact absurd rfl (quiet _)

theorem Kept.sound (kept : Kept c) : Sound c := by
  cases kept with
  | idle => exact ⟨nofun, fun _ => .inl rfl⟩
  | @busy _ worker _ _ _ _ _ hand | @stopping worker _ _ _ _ hand =>
    refine ⟨nofun, fun _ => ?_⟩
    cases worker with
    | writing text => exact .inr ⟨text, hand, .inr rfl⟩
    | popped text => simp_all [Worker.hand]
    | ended | loop | waiting => exact .inl (hand.trans (List.append_nil _))
  | failed quiet => exact ⟨fun _ => ⟨rfl, rfl, quiet⟩, nofun⟩

instance (c : Channel) (act : Act) : Decidable (Meets c act) := by
  cases act <;> unfold Meets <;> infer_instance

def failing : List Act :=
  [.createWriter, .message "a", .look, .pop, .lookAgain, .write, .message "b", .look, .pop,
    .rotationFails]

end GuardSarm.StreamChannel
