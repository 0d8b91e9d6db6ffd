import GuardSarm.Lib.Framing
import GuardSarm.Lib.Steps
import GuardSarm.Remote.SecureMessage

/-! The receive buffer of a connection. `nb_recv` appends what the socket has, passes on every whole
frame, and moves what is left to the start of the buffer, which it may then shrink or free. -/
namespace GuardSarm.Remote

/-- `sockbuffer_t` as far as it is received into. The data is the whole allocation. -/
structure SockBuffer where
  data : List UInt8
  dataSize : Nat
  dataLen : Nat

/-- `receive_chunk` and `buffer_relax`, and the byte that fresh memory holds. -/
structure BufferConfig where
  receiveChunk : Nat
  bufferRelax : Nat
  junk : UInt8

def littleEndian : List UInt8 → Nat
  | [] => 0
  | byte :: rest => byte.toNat + 256 * littleEndian rest

/-- The loop of `nb_recv` from an offset: the messages passed to `rem_msgpush`, the offset it stops at,
and whether it stops at a length that is too large. -/
def dispatch (data : List UInt8) (dataLen i : Nat) : List (List UInt8) × Nat × Bool :=
  if i + 4 ≤ dataLen then
    let curLen := littleEndian ((data.drop i).take 4)
    if osMaxstr < curLen then ([], i, true)
    else
      let curOffset := i + 4
      if dataLen < curOffset + curLen then ([], i, false)
      else
        let (messages, last, corrupt) := dispatch data dataLen (curOffset + curLen)
        ((data.drop curOffset).take curLen :: messages, last, corrupt)
  else ([], i, false)
termination_by dataLen - i

namespace SockBuffer

/-- `os_realloc`. -/
def realloc (config : BufferConfig) (s : SockBuffer) (size : Nat) : SockBuffer :=
  { s with
    data := s.data.take size ++ List.replicate (size - s.data.length) config.junk
    dataSize := size }

/-- The data from an offset on is moved to the start, and the memory is relaxed. -/
def compact (config : BufferConfig) (s : SockBuffer) (i : Nat) : SockBuffer :=
  let moved := { s with
    data := (s.data.drop i).take (s.dataLen - i) ++ s.data.drop (s.dataLen - i)
    dataLen := s.dataLen - i }
  match config.bufferRelax with
  | 0 => moved
  | 1 => moved.realloc config
      (if config.receiveChunk < moved.dataLen then moved.dataLen else config.receiveChunk)
  | _ => if moved.dataLen ≠ 0 then moved.realloc config moved.dataLen
      else { moved with data := [], dataSize := 0 }

/-- Room for a chunk behind the data. -/
def extend (config : BufferConfig) (s : SockBuffer) : SockBuffer :=
  let dataExt := s.dataLen + config.receiveChunk
  if s.dataSize < dataExt then s.realloc config dataExt else s

/-- The bytes that `recv` writes behind the data. -/
def append (s : SockBuffer) (received : List UInt8) : SockBuffer :=
  { s with
    data := s.data.take s.dataLen ++ received ++ s.data.drop (s.dataLen + received.length)
    dataLen := s.dataLen + received.length }

/-- `nb_recv` when `recv` gives these bytes, none where it gives nothing: the buffer after it, the
messages passed on, and whether it returns -2. -/
def nbRecv (config : BufferConfig) (s : SockBuffer) (received : List UInt8) :
    SockBuffer × List (List UInt8) × Bool :=
  let s := s.extend config
  if received = [] then (s, [], false)
  else
    let s := s.append received
    let (messages, i, corrupt) := dispatch s.data s.dataLen 0
    if corrupt then (s, messages, true)
    else (if 0 < i then s.compact config i else s, messages, false)

def content (s : SockBuffer) : List UInt8 := s.data.take s.dataLen

/-- As `nb_open` leaves it. -/
def empty : SockBuffer := ⟨[], 0, 0⟩

end SockBuffer

/-- Four bytes, the lowest first, and at most `OS_MAXSTR`. -/
def wireFraming : Framing UInt8 := ⟨4, littleEndian, osMaxstr⟩

/-- A connection: its buffer, all that was received, the messages passed on, and whether a length was
too large. -/
structure Connection where
  buffer : SockBuffer
  stream : List UInt8
  pushed : List (List UInt8)
  corrupt : Bool

def Connection.opened : Connection := ⟨.empty, [], [], false⟩

def Connection.recv (config : BufferConfig) (c : Connection) (received : List UInt8) : Connection :=
  let (buffer, messages, corrupt) := c.buffer.nbRecv config received
  ⟨buffer, c.stream ++ received, c.pushed ++ messages, corrupt⟩

/-- What `recv` may give, up to the first length that is too large. -/
def Connection.Receives (config : BufferConfig) (c : Connection) (received : List UInt8) : Prop :=
  c.corrupt = false ∧ received.length ≤ config.receiveChunk

section dispatching

variable {data : List UInt8} {dataLen i n : Nat}

/-- Bytes read inside the length are bytes of the data that counts. -/
theorem take_drop_inside (inside : i + n ≤ dataLen) :
    (data.drop i).take n = ((data.take dataLen).drop i).take n := by
  rw [List.drop_take, List.take_take, Nat.min_eq_left (by omega)]

/-- The loop cuts what it passes on from the data, and stops where it is stuck. -/
theorem dispatch_cut (allocated : dataLen ≤ data.length) (i : Nat) (inside : i ≤ dataLen) :
    (dispatch data dataLen i).2.1 ≤ dataLen ∧
      wireFraming.Cut ((data.take dataLen).drop i) (dispatch data dataLen i).1
        ((data.take dataLen).drop (dispatch data dataLen i).2.1) ∧
      if (dispatch data dataLen i).2.2 then
        wireFraming.Oversized ((data.take dataLen).drop (dispatch data dataLen i).2.1)
      else wireFraming.Short ((data.take dataLen).drop (dispatch data dataLen i).2.1) := by
  have length (j : Nat) : ((data.take dataLen).drop j).length = dataLen - j := by
    rw [List.length_drop, List.length_take, Nat.min_eq_left allocated]
  fun_induction dispatch data dataLen i with
  | case1 i room curLen large =>
    refine ⟨inside, .nil _, ?_⟩
    rw [if_pos rfl]
    refine ⟨?_, ?_⟩
    · rw [length]
      exact Nat.le_sub_of_add_le' room
    · show osMaxstr < littleEndian (((data.take dataLen).drop i).take 4)
      rwa [← take_drop_inside room]
  | case2 i room curLen small curOffset missing =>
    refine ⟨inside, .nil _, ?_⟩
    show wireFraming.Short ((data.take dataLen).drop i)
    right
    show littleEndian (((data.take dataLen).drop i).take 4) ≤ osMaxstr ∧
      ((data.take dataLen).drop i).length < 4 + littleEndian (((data.take dataLen).drop i).take 4)
    rw [← take_drop_inside room, length]
    omega
  | case3 i room curLen small curOffset whole messages last corrupt result ih =>
    obtain ⟨bound, cut, stop⟩ := ih (by omega)
    rw [result] at bound cut stop
    refine ⟨bound, ?_, stop⟩
    have header : ((data.take dataLen).drop i).take 4 = (data.drop i).take 4 :=
      (take_drop_inside room).symm
    have payload : ((data.take dataLen).drop curOffset).take curLen = (data.drop curOffset).take curLen :=
      (take_drop_inside (by omega)).symm
    have parts : (data.take dataLen).drop i = (data.drop i).take 4 ++
        ((data.drop curOffset).take curLen ++ (data.take dataLen).drop (curOffset + curLen)) := by
      have behind : (data.take dataLen).drop (curOffset + curLen) =
          ((data.take dataLen).drop curOffset).drop curLen := List.drop_drop.symm
      have start : (data.take dataLen).drop curOffset = ((data.take dataLen).drop i).drop 4 :=
        List.drop_drop.symm
      rw [← header, ← payload, behind, List.take_append_drop, start, List.take_append_drop]
    have size : ((data.drop curOffset).take curLen).length = curLen := by
      rw [← payload, List.length_take, length]
      omega
    rw [parts]
    refine .cons _ _ ?_ size.symm (size.trans_le (Nat.le_of_not_lt small)) cut
    rw [← header, List.length_take, length]
    exact Nat.min_eq_left (by omega)
  | case4 i room =>
    refine ⟨inside, .nil _, ?_⟩
    show wireFraming.Short ((data.take dataLen).drop i)
    left
    rw [length]
    show dataLen - i < 4
    omega

end dispatching

namespace SockBuffer

variable {config : BufferConfig} {s : SockBuffer} {received : List UInt8} {i size : Nat}

/-- The allocation has the size that is kept, and room for the data. -/
structure Sized (s : SockBuffer) : Prop where
  allocated : s.data.length = s.dataSize
  room : s.dataLen ≤ s.dataSize

theorem realloc_sized (room : s.dataLen ≤ size) : (s.realloc config size).Sized where
  allocated := by
    rw [realloc, List.length_append, List.length_take, List.length_replicate]
    simp only
    omega
  room := room

theorem content_realloc (sized : s.dataLen ≤ s.data.length) (room : s.dataLen ≤ size) :
    (s.realloc config size).content = s.content := by
  rw [content, content, realloc]
  simp only
  rw [List.take_append_of_le_length (by rw [List.length_take]; omega), List.take_take,
    Nat.min_eq_left room]

theorem compact_spec (config : BufferConfig) (sized : s.Sized) (inside : i ≤ s.dataLen) :
    (s.compact config i).Sized ∧ (s.compact config i).content = s.content.drop i := by
  obtain ⟨allocated, room⟩ := sized
  have front : ((s.data.drop i).take (s.dataLen - i)).length = s.dataLen - i := by
    rw [List.length_take, List.length_drop]
    omega
  set moved : SockBuffer := { s with
    data := (s.data.drop i).take (s.dataLen - i) ++ s.data.drop (s.dataLen - i)
    dataLen := s.dataLen - i } with moved_def
  have length : moved.data.length = s.dataSize := by
    rw [moved_def, List.length_append, front, List.length_drop]
    omega
  have held : moved.content = s.content.drop i := by
    rw [content, moved_def, List.take_left' front, content, List.drop_take]
  have fits : moved.dataLen ≤ moved.dataSize := (Nat.sub_le _ _).trans room
  have inside : moved.dataLen ≤ moved.data.length := length ▸ fits
  rw [compact, ← moved_def]
  split
  · exact ⟨⟨length, fits⟩, held⟩
  · have enough : moved.dataLen ≤
        if config.receiveChunk < moved.dataLen then moved.dataLen else config.receiveChunk := by
      split <;> omega
    exact ⟨realloc_sized enough, (content_realloc inside enough).trans held⟩
  · split
    · exact ⟨realloc_sized le_rfl, (content_realloc inside le_rfl).trans held⟩
    · rename_i zero
      have none : moved.dataLen = 0 := not_not.mp zero
      refine ⟨⟨rfl, none.le⟩, ?_⟩
      rw [← held, content, content, none]
      rfl

theorem extend_spec (config : BufferConfig) (sized : s.Sized) :
    (s.extend config).Sized ∧ (s.extend config).content = s.content ∧
      (s.extend config).dataLen + config.receiveChunk ≤ (s.extend config).dataSize := by
  obtain ⟨allocated, room⟩ := sized
  rw [extend]
  split
  · have enough : s.dataLen ≤ s.dataLen + config.receiveChunk := Nat.le_add_right _ _
    exact ⟨realloc_sized enough, content_realloc (allocated ▸ room) enough, le_rfl⟩
  · exact ⟨⟨allocated, room⟩, rfl, by omega⟩

theorem append_spec (sized : s.Sized) (room : s.dataLen + received.length ≤ s.dataSize) :
    (s.append received).Sized ∧ (s.append received).content = s.content ++ received := by
  obtain ⟨allocated, _⟩ := sized
  have front : (s.data.take s.dataLen ++ received).length = s.dataLen + received.length := by
    rw [List.length_append, List.length_take]
    omega
  refine ⟨⟨?_, room⟩, List.take_left' front⟩
  rw [append, List.length_append, front, List.length_drop]
  simp only
  omega

/-- What one call does to the buffer: it appends, and cuts off the frames that are complete. -/
theorem nbRecv_spec (sized : s.Sized) (short : received.length ≤ config.receiveChunk)
    (before : wireFraming.Short s.content) : (s.nbRecv config received).1.Sized ∧
      if (s.nbRecv config received).2.2 then
        ∃ rest, wireFraming.Cut (s.content ++ received) (s.nbRecv config received).2.1 rest ∧
          wireFraming.Oversized rest else
        wireFraming.Cut (s.content ++ received) (s.nbRecv config received).2.1
            (s.nbRecv config received).1.content ∧
          wireFraming.Short (s.nbRecv config received).1.content := by
  obtain ⟨sized, held, room⟩ := extend_spec config sized
  by_cases nothing : received = []
  · subst nothing
    rw [nbRecv, if_pos rfl, List.append_nil, ← held]
    exact ⟨sized, .nil _, held ▸ before⟩
  · obtain ⟨sized, joined⟩ := append_spec sized ((Nat.add_le_add_left short _).trans room)
    rw [held] at joined
    obtain ⟨inside, cut, stop⟩ :=
      dispatch_cut (sized.allocated ▸ sized.room) 0 (Nat.zero_le _)
    change wireFraming.Cut (((s.extend config).append received).content.drop 0) _ _ at cut
    rw [List.drop_zero, joined] at cut
    rcases result : dispatch ((s.extend config).append received).data
      ((s.extend config).append received).dataLen 0 with ⟨messages, i, corrupt⟩
    rw [result] at inside cut stop
    cases corrupt with
    | true =>
      have called : s.nbRecv config received = ((s.extend config).append received, messages, true) := by
        simp [nbRecv, nothing, result]
      rw [called]
      exact ⟨sized, _, cut, stop⟩
    | false =>
      have called : s.nbRecv config received = (if 0 < i then
          ((s.extend config).append received).compact config i
        else (s.extend config).append received, messages, false) := by
        simp [nbRecv, nothing, result]
      rw [called]
      by_cases moved : 0 < i
      · obtain ⟨sized, rest⟩ := compact_spec config sized inside
        rw [if_pos moved]
        refine ⟨sized, ?_⟩
        show wireFraming.Cut _ messages (SockBuffer.content _) ∧ wireFraming.Short (SockBuffer.content _)
        rw [rest]
        exact ⟨cut, stop⟩
      · obtain rfl : i = 0 := by omega
        exact ⟨sized, cut, stop⟩

end SockBuffer

/-- How the stream stands to what was passed on and what the buffer holds. -/
structure Connection.Framed (c : Connection) : Prop where
  sized : c.buffer.Sized
  clean : c.corrupt = false →
    wireFraming.Cut c.stream c.pushed c.buffer.content ∧ wireFraming.Short c.buffer.content
  broken : c.corrupt = true →
    ∃ rest, wireFraming.Cut c.stream c.pushed rest ∧ wireFraming.Oversized rest

namespace Connection

variable {config : BufferConfig} {c c' : Connection} {received : List UInt8}

theorem Framed.recv (framed : c.Framed) (receives : c.Receives config received) :
    (c.recv config received).Framed := by
  obtain ⟨cut, short⟩ := framed.clean receives.1
  obtain ⟨sized, after⟩ := SockBuffer.nbRecv_spec framed.sized receives.2 short
  have whole := cut.extend received
  refine ⟨sized, ?_, ?_⟩
  · intro clean
    rw [if_neg (by rw [show (c.buffer.nbRecv config received).2.2 = false from clean]; decide)]
      at after
    exact ⟨whole.append after.1, after.2⟩
  · intro broken
    change (c.buffer.nbRecv config received).2.2 = true at broken
    rw [if_pos broken] at after
    obtain ⟨rest, cut, oversized⟩ := after
    exact ⟨rest, whole.append cut, oversized⟩

theorem framed_of_run {pieces : List (List UInt8)}
    (run : Steps (Meeting (Receives config) fun c received c' => c.recv config received = c')
      opened pieces c) : c.stream = pieces.flatten ∧ c.Framed := by
  have start : opened.Framed :=
    ⟨⟨rfl, le_rfl⟩, fun _ => ⟨.nil _, .inl (by decide)⟩, nofun⟩
  refine run.history (P := fun pieces c => c.stream = pieces.flatten ∧ c.Framed) ?_ ⟨rfl, start⟩
  rintro pieces c received c' ⟨receives, rfl⟩ ⟨stream, framed⟩
  refine ⟨?_, framed.recv receives⟩
  rw [List.flatten_append, List.flatten_singleton, ← stream]
  rfl

/-- **Stream framing.** However the stream is cut into pieces: the messages passed on are the payloads
of the frames of the stream, in order; what the buffer holds after each call is the part of a
frame that has arrived, and it fits; and where a length is too large the messages passed on
are those before it. -/
theorem stream_framed (config : BufferConfig) {pieces : List (List UInt8)}
    (run : Steps (Meeting (Receives config) fun c received c' => c.recv config received = c')
      opened pieces c) : c.stream = pieces.flatten ∧ c.buffer.dataLen ≤ c.buffer.dataSize ∧
      (c.corrupt = false → wireFraming.Cut c.stream c.pushed c.buffer.content ∧
        wireFraming.Short c.buffer.content) ∧
      (c.corrupt = true → ∃ rest, wireFraming.Cut c.stream c.pushed rest ∧
        wireFraming.Oversized rest) := by
  obtain ⟨stream, framed⟩ := framed_of_run run
  exact ⟨stream, framed.sized.room, framed.clean, framed.broken⟩

/-- A frame of two bytes in three pieces, with the memory freed after each message. -/
theorem stream_framed_pieces : ∃ c,
    Steps (Meeting (Receives ⟨4, 2, 0⟩) fun c received c' => c.recv ⟨4, 2, 0⟩ received = c')
      opened [[2, 0, 0], [0, 7], [8]] c ∧ c.pushed = [[7, 8]] ∧
    wireFraming.Cut c.stream c.pushed c.buffer.content := by
  have run : Steps (Meeting (Receives ⟨4, 2, 0⟩) fun c received c' => c.recv ⟨4, 2, 0⟩ received = c')
      opened [[2, 0, 0], [0, 7], [8]] _ :=
    ((Steps.nil.snoc ⟨⟨rfl, by decide⟩, rfl⟩).snoc ⟨⟨by decide +kernel, by decide⟩, rfl⟩).snoc
      ⟨⟨by decide +kernel, by decide⟩, rfl⟩
  exact ⟨_, run, by decide +kernel, ((stream_framed ⟨4, 2, 0⟩ run).2.2.1 (by decide +kernel)).1⟩

end Connection

end GuardSarm.Remote
