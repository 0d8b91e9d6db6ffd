import GuardSarm.Remote.NetBuffer
import GuardSarm.Remote.SendQueue

/-! From the agent to the manager: what `OS_SendSecureTCP` writes, and what `nb_recv` passes on. -/
namespace GuardSarm.Remote

/-- The bytes passed to `send`, with the length as `nb_queue` writes it. The call returns 0 where
`send` takes them all. -/
def osSendSecureTCP (msg : List UInt8) : List UInt8 := SendQueue.frame msg

/-- The connection after the calls of `nb_recv` in which these pieces arrive. -/
def Received (config : BufferConfig) (pieces : List (List UInt8)) (c : Connection) : Prop :=
  Steps (Meeting (Connection.Receives config) fun c received c' => c.recv config received = c')
    .opened pieces c

theorem cut_frames {msgs : List (List UInt8)} (small : ∀ msg ∈ msgs, msg.length ≤ osMaxstr) :
    wireFraming.Cut (msgs.flatMap osSendSecureTCP) msgs [] := by
  induction msgs with
  | nil => exact .nil []
  | cons msg msgs ih =>
    obtain ⟨here, later⟩ := List.forall_mem_cons.mp small
    rw [List.flatMap_cons, osSendSecureTCP, SendQueue.frame, List.append_assoc]
    refine .cons _ msg rfl ?_ here (ih later)
    have word : osMaxstr < 2 ^ 32 := by decide
    simp only [wireFraming, littleEndian, UInt8.toNat_ofNat']
    omega

/-- **What the agent sends arrives.** Of messages that are not too long, whatever part of their bytes
has arrived in whatever pieces, a start is passed on, and all where all has arrived. -/
theorem sent_messages_arrive (config : BufferConfig) {msgs pieces : List (List UInt8)}
    {c : Connection} (small : ∀ msg ∈ msgs, msg.length ≤ osMaxstr) (received : Received config pieces c)
    (arrived : pieces.flatten <+: msgs.flatMap osSendSecureTCP) :
    c.corrupt = false ∧ c.pushed <+: msgs ∧
      (pieces.flatten = msgs.flatMap osSendSecureTCP → c.pushed = msgs) := by
  obtain ⟨stream, framed⟩ := Connection.framed_of_run received
  obtain ⟨more, whole⟩ := arrived
  have frames := cut_frames small
  rw [← whole, ← stream] at frames
  cases corrupt : c.corrupt with
  | true =>
    obtain ⟨rest, cut, large⟩ := framed.broken corrupt
    exact absurd large (cut.of_whole (by decide) frames).2.1
  | false =>
    obtain ⟨cut, short⟩ := framed.clean corrupt
    obtain ⟨front, _, ends⟩ := cut.of_whole (by decide) frames
    refine ⟨rfl, front, fun all => ends ?_ short⟩
    rwa [← whole, List.self_eq_append_right] at all

theorem sent_messages_arrive_pieces :
    ∃ c, Received ⟨4, 2, 0⟩ [[1, 0, 0], [0, 7]] c ∧ c.pushed = [[7]] := by
  have received : Received ⟨4, 2, 0⟩ [[1, 0, 0], [0, 7]] _ :=
    (Steps.nil.snoc ⟨⟨rfl, by decide⟩, rfl⟩).snoc ⟨⟨by decide +kernel, by decide⟩, rfl⟩
  have small : ∀ msg ∈ [[(7 : UInt8)]], msg.length ≤ osMaxstr := by decide
  exact ⟨_, received, (sent_messages_arrive ⟨4, 2, 0⟩ small received (by decide)).2.2 (by decide)⟩

end GuardSarm.Remote
