import GuardSarm.Shared.StringEscape

/-! The line of an event between agent and engine. `SendMSGAction` writes the queue byte, the
location with `|` and `:` escaped, and the message. `parseLegacyEvent` cuts the line at the first
colon that does not follow a `|`, and undoes the escape of `:` but not that of `|`. -/
namespace GuardSarm.Engine

open List

def osMaxstr : Nat := 65536

def osSize8192 : Nat := 8192

def secureMq : Char := '4'

/-- `snprintf(tmpstr, OS_MAXSTR, ..)`. -/
def format (text : Text) : Text := cString (text.take (osMaxstr - 1))

/-- `SendMSGAction` up to the line that it hands to `OS_SendUnix`; none where it returns before. -/
def sendMSGAction (message locmsg : Text) (loc : Char) : Option Text :=
  let locBuff := wstrEscape (osSize8192 + 1) locmsg '|' ':'
  if loc = secureMq then
    match message with
    | loc :: ':' :: message =>
      if "keepalive".toList.isPrefixOf message then none
      else some (format (loc :: ':' :: locBuff ++ "->".toList ++ message))
    | _ => none
  else some (format (loc :: ':' :: locBuff ++ ':' :: message))

/-- The members of the document that the parser sets. -/
structure Document where
  queue : Option Nat
  location : Option Text
  message : Option Text
  deriving DecidableEq

/-- The text before the separator and the text after it. The character before is given. -/
def findSeparator : Char → Text → Option (Text × Text)
  | _, [] => none
  | before, c :: rest =>
    if c = ':' ∧ before ≠ '|' then some ([], rest)
    else (findSeparator c rest).map fun (location, message) => (c :: location, message)

def unescapeLocation : Text → Text
  | [] => []
  | '|' :: ':' :: rest => ':' :: unescapeLocation rest
  | c :: rest => c :: unescapeLocation rest

/-- `parseLegacyEvent`. The agent's metadata is what merging it makes of a document: it may add and
replace members, and the merge may throw. -/
def parseLegacyEvent (agentMetadata : Document → Except String Document) (rawEvent : Text) :
    Except String Document :=
  match rawEvent with
  | queue :: ':' :: body =>
    if rawEvent.length < 5 then
      .error "Invalid format: event must be at least 5 bytes (\"<byte>:<location>:<message>\")"
    else
      match findSeparator ':' body with
      | none => .error "Invalid format: missing unescaped ':' between location and message"
      | some (rawLocView, msgView) =>
        if rawLocView = [] then .error "Invalid format: location cannot be empty"
        else
          match agentMetadata ⟨some queue.toNat, none, none⟩ with
          | .error what => .error ("Agent metadata merge failed: " ++ what)
          | .ok document => .ok { document with
              location := some (unescapeLocation rawLocView), message := some msgView }
  | _ => .error "Invalid format: event must be at least 5 bytes (\"<byte>:<location>:<message>\")"

/-- Every reserved character with its mark, whatever the length. -/
def escaped (text : Text) : Text := text.flatMap fun c => if c = '|' ∨ c = ':' then ['|', c] else [c]

/-- The loop stops before the last character: the write position is two short of the buffer after a
reserved character, and one character is left. -/
def Cut (dstSize j : Nat) (text : Text) : Prop :=
  ∃ start reserved last, text = start ++ [reserved, last] ∧ (reserved = '|' ∨ reserved = ':') ∧
    j + (escaped (start ++ [reserved])).length + 2 = dstSize

theorem escaped_append (a b : Text) : escaped (a ++ b) = escaped a ++ escaped b := marked_append a b

theorem escaped_reserved {c : Char} (reserved : c = '|' ∨ c = ':') (rest : Text) :
    escaped (c :: rest) = '|' :: c :: escaped rest := marked_reserved reserved rest

theorem escaped_plain {c : Char} (plain : ¬(c = '|' ∨ c = ':')) (rest : Text) :
    escaped (c :: rest) = c :: escaped rest := marked_plain plain rest

theorem length_le_escaped (text : Text) : text.length ≤ (escaped text).length :=
  length_le_marked '|' ':' text

section decoding

/-- No separator is found inside an escaped location. -/
theorem findSeparator_escaped (before : Char) (location rest : Text) :
    findSeparator before (escaped location ++ rest) =
      (findSeparator (location.getLastD before) rest).map fun (text, message) =>
        (escaped location ++ text, message) := by
  induction location generalizing before with
  | nil => simp [escaped]
  | cons c location ih =>
    have last : (c :: location).getLastD before = location.getLastD c := by
      cases location <;> rfl
    rw [last]
    by_cases reserved : c = '|' ∨ c = ':'
    · rw [escaped_reserved reserved, cons_append, cons_append, findSeparator,
        if_neg (by simp), findSeparator, if_neg (by simp), ih, Option.map_map, Option.map_map]
      rfl
    · rw [escaped_plain reserved, cons_append, findSeparator,
        if_neg fun colon => reserved (.inr colon.1), ih, Option.map_map]
      rfl

theorem unescapeLocation_plain {c : Char} (plain : c ≠ '|') (rest : Text) :
    unescapeLocation (c :: rest) = c :: unescapeLocation rest := by
  rw [unescapeLocation]
  intro tail same
  exact absurd same plain

/-- Without `|` the escape is undone. -/
theorem unescapeLocation_escaped {location : Text} (plain : '|' ∉ location) :
    unescapeLocation (escaped location) = location := by
  induction location with
  | nil => rfl
  | cons c location ih =>
    have other : c ≠ '|' := fun same => plain (same ▸ mem_cons_self)
    have rest := ih fun member => plain (mem_cons_of_mem _ member)
    by_cases reserved : c = '|' ∨ c = ':'
    · obtain rfl := reserved.resolve_left other
      rw [escaped_reserved reserved, unescapeLocation, rest]
    · rw [escaped_plain reserved, unescapeLocation_plain other, rest]

def reservedCount (text : Text) : Nat := text.countP fun c => c == '|' || c == ':'

theorem escaped_head_ne (location rest : Text) (nonempty : location ≠ []) :
    ∀ tail, escaped location ++ rest ≠ ':' :: tail := by
  intro tail
  cases location with
  | nil => exact absurd rfl nonempty
  | cons c location =>
    by_cases reserved : c = '|' ∨ c = ':'
    · rw [escaped_reserved reserved]
      exact fun same => absurd (head_eq_of_cons_eq same) (by decide)
    · rw [escaped_plain reserved]
      exact fun same => reserved (.inr (head_eq_of_cons_eq same))

theorem unescapeLocation_mark {rest : Text} (other : ∀ tail, rest ≠ ':' :: tail) :
    unescapeLocation ('|' :: rest) = '|' :: unescapeLocation rest := by
  rw [unescapeLocation]
  intro tail _ same
  exact other tail same

/-- Every `|` of a location is read twice, whatever follows the location. -/
theorem reservedCount_unescapeLocation (location rest : Text) :
    location.count ':' + 2 * location.count '|' ≤
      reservedCount (unescapeLocation (escaped location ++ rest)) := by
  induction location with
  | nil => exact Nat.zero_le _
  | cons c location ih =>
    by_cases mark : c = '|'
    · subst mark
      rw [escaped_reserved (.inl rfl), cons_append, cons_append,
        unescapeLocation_mark (by simp)]
      have once : location.count ':' + 2 * location.count '|' + 1 ≤
          reservedCount (unescapeLocation ('|' :: (escaped location ++ rest))) := by
        by_cases joined : ∃ tail, escaped location ++ rest = ':' :: tail
        · obtain ⟨tail, joined⟩ := joined
          -- Only an empty location lets the colon after it join the mark.
          obtain rfl : location = [] := by
            by_contra nonempty
            exact escaped_head_ne location rest nonempty tail joined
          rw [joined, unescapeLocation]
          simp [reservedCount]
        · rw [unescapeLocation_mark fun tail same => joined ⟨tail, same⟩]
          simp [reservedCount] at ih ⊢
          omega
      simp [reservedCount] at once ⊢
      omega
    · by_cases colon : c = ':'
      · subst colon
        rw [escaped_reserved (.inr rfl), cons_append, cons_append, unescapeLocation]
        simp [reservedCount] at ih ⊢
        omega
      · rw [escaped_plain (by simp [mark, colon]), cons_append, unescapeLocation_plain mark]
        simp [reservedCount, mark, colon] at ih ⊢
        omega

theorem reservedCount_eq (text : Text) : reservedCount text = text.count ':' + text.count '|' := by
  induction text with
  | nil => rfl
  | cons c text ih =>
    simp only [reservedCount, countP_cons, count_cons] at ih ⊢
    grind

variable {agentMetadata : Document → Except String Document} {queue : Char} {location message : Text}

theorem parseLegacyEvent_plain (plain : '|' ∉ location) (named : location ≠ [])
    (said : message ≠ []) (document : Document) :
    parseLegacyEvent agentMetadata (queue :: ':' :: (escaped location ++ ':' :: message)) =
        .ok document ↔
      ∃ merged, agentMetadata ⟨some queue.toNat, none, none⟩ = .ok merged ∧
        document = { merged with location := some location, message := some message } := by
  have long : ¬(queue :: ':' :: (escaped location ++ ':' :: message)).length < 5 := by
    have first := (length_pos_of_ne_nil named).trans_le (length_le_escaped location)
    have second := length_pos_of_ne_nil said
    simp only [length_cons, length_append]
    omega
  have last : location.getLastD ':' ≠ '|' := by
    rw [getLastD_eq_getLast?, getLast?_eq_some_getLast named, Option.getD_some]
    exact fun same => plain (same ▸ getLast_mem named)
  have found : findSeparator ':' (escaped location ++ ':' :: message) =
      some (escaped location, message) := by
    rw [findSeparator_escaped, findSeparator, if_pos ⟨rfl, last⟩]
    simp
  have written : escaped location ≠ [] := by
    rw [← length_pos_iff]
    exact (length_pos_of_ne_nil named).trans_le (length_le_escaped location)
  simp only [parseLegacyEvent, if_neg long, found, if_neg written, unescapeLocation_escaped plain]
  cases agentMetadata ⟨some queue.toNat, none, none⟩ with
  | error what => simp
  | ok merged => simp [eq_comm]

/-- With `|` in the location, what is read as the location has more reserved characters. -/
theorem parseLegacyEvent_marked (marked : '|' ∈ location) {document : Document}
    (parsed : parseLegacyEvent agentMetadata
      (queue :: ':' :: (escaped location ++ ':' :: message)) = .ok document) :
    ∃ text, document.location = some text ∧ reservedCount location < reservedCount text := by
  simp only [parseLegacyEvent, findSeparator_escaped] at parsed
  split at parsed
  · cases parsed
  split at parsed
  · cases parsed
  rename_i rawLocView msgView found
  obtain ⟨⟨text, rest⟩, _, same⟩ := Option.map_eq_some_iff.mp found
  cases same
  split at parsed
  · cases parsed
  split at parsed
  · cases parsed
  cases parsed
  refine ⟨_, rfl, ?_⟩
  have twice := reservedCount_unescapeLocation location text
  have once := count_pos_iff.mpr marked
  rw [reservedCount_eq location]
  exact (by omega : _ < location.count ':' + 2 * location.count '|').trans_le twice

end decoding

theorem nul_notMem_escaped {location : Text} (plain : nul ∉ location) : nul ∉ escaped location := by
  intro member
  obtain ⟨c, inside, written⟩ := mem_flatMap.mp member
  split at written
  · rcases mem_pair.mp written with mark | same
    · exact absurd mark (by decide)
    · exact plain (same ▸ inside)
  · exact plain (mem_singleton.mp written ▸ inside)

/-- The line that is sent for a location that fits: the message is cut to the room that is left. -/
theorem format_line {queue : Char} {location message : Text} (visible : queue ≠ nul)
    (plain : nul ∉ location) (printable : nul ∉ message)
    (short : (escaped location).length ≤ osSize8192) :
    format (queue :: ':' :: escaped location ++ ':' :: message) = queue :: ':' ::
      (escaped location ++ ':' :: message.take (osMaxstr - 4 - (escaped location).length)) := by
  have room : osMaxstr - 1 = (escaped location).length +
      (osMaxstr - 4 - (escaped location).length + 1) + 2 := by
    simp only [osMaxstr, osSize8192] at short ⊢
    omega
  rw [format, room, cons_append, cons_append, take_succ_cons, take_succ_cons,
    take_length_add_append, take_succ_cons]
  apply cString_eq_self
  simp only [mem_cons, mem_append, not_or]
  exact ⟨visible.symm, by decide, nul_notMem_escaped plain, by decide,
    fun member => printable (mem_of_mem_take member)⟩

/-- What is kept of a location that fits. Only a plain character is ever cut. -/
theorem wstrEscape_kept {dstSize : Nat} {location : Text} (named : location ≠ [])
    (short : (escaped location).length < dstSize) :
    ∃ kept, wstrEscape dstSize location '|' ':' = escaped kept ∧ kept <+: location ∧ kept ≠ [] ∧
      reservedCount kept = reservedCount location ∧ (kept = location ↔ ¬Cut dstSize 0 location) := by
  have outcome : ¬Cut dstSize 0 location ∧ wstrEscape dstSize location '|' ':' = escaped location ∨
      Cut dstSize 0 location ∧ wstrEscape dstSize location '|' ':' = escaped location.dropLast :=
    wstrEscapeLoop_eq dstSize '|' ':' location 0 ((Nat.zero_add _).trans_lt short)
  rcases outcome with ⟨uncut, same⟩ | ⟨cut, same⟩
  · exact ⟨location, same, prefix_rfl, named, rfl, iff_of_true rfl uncut⟩
  · refine ⟨location.dropLast, same, dropLast_prefix location, ?_, ?_, ?_⟩
    · obtain ⟨start, reserved, last, rfl, _⟩ := cut
      simp
    · obtain ⟨start, reserved, last, rfl, _, full⟩ := cut
      rw [show start ++ [reserved, last] = (start ++ [reserved]) ++ [last] by simp] at short ⊢
      have plain : ¬(last = '|' ∨ last = ':') := by
        intro mark
        rw [escaped_append, escaped_reserved mark, length_append] at short
        simp only [length_cons] at short
        omega
      have uncounted : [last].countP (fun c => c == '|' || c == ':') = 0 := by
        simpa [not_or] using plain
      simp only [dropLast_concat, reservedCount, countP_append, uncounted, Nat.add_zero]
    · refine iff_of_false ?_ (not_not_intro cut)
      intro same
      have shorter := congrArg List.length same
      have positive := length_pos_of_ne_nil named
      rw [length_dropLast] at shorter
      omega

theorem length_escaped_mono {a b : Text} (initial : a <+: b) :
    (escaped a).length ≤ (escaped b).length := by
  obtain ⟨rest, rfl⟩ := initial
  rw [escaped_append, length_append]
  exact Nat.le_add_right _ _

/-- When a line is read back: the location has no `|` and is not cut, the line fits in its buffer,
the queue byte is not zero, and the agent's metadata leaves the queue as it is. -/
def Framed (agentMetadata : Document → Except String Document) (queue : Char)
    (location message : Text) : Prop :=
  '|' ∉ location ∧ ¬Cut (osSize8192 + 1) 0 location ∧
    3 + (escaped location).length + message.length < osMaxstr ∧ queue ≠ nul ∧
    ∃ merged, agentMetadata ⟨some queue.toNat, none, none⟩ = .ok merged ∧
      merged.queue = some queue.toNat

/-- **Event framing.** The engine reads back the queue, the location and the message of a line
exactly when the line is framed. -/
theorem legacy_event_read_back_iff (agentMetadata : Document → Except String Document)
    {queue : Char} {location message : Text} (legacy : queue ≠ secureMq) (named : location ≠ [])
    (said : message ≠ []) (plain : nul ∉ location) (printable : nul ∉ message)
    (short : (escaped location).length < osSize8192 + 1) :
    (∃ line document, sendMSGAction message location queue = some line ∧
      parseLegacyEvent agentMetadata line = .ok document ∧ document.queue = some queue.toNat ∧
      document.location = some location ∧ document.message = some message) ↔
    Framed agentMetadata queue location message := by
  have sent : sendMSGAction message location queue = some (format
      (queue :: ':' :: wstrEscape (osSize8192 + 1) location '|' ':' ++ ':' :: message)) := by
    exact if_neg legacy
  obtain ⟨kept, written, initial, left, reserved, whole⟩ := wstrEscape_kept named short
  rw [written] at sent
  by_cases hidden : queue = nul
  · refine iff_of_false ?_ fun framed => framed.2.2.2.1 hidden
    rintro ⟨line, document, made, parsed, _⟩
    rw [sent] at made
    cases made
    have empty : format (queue :: ':' :: escaped kept ++ ':' :: message) = [] := by
      rw [hidden]
      exact cString_nul_cons _
    rw [empty] at parsed
    cases parsed
  · have fits : (escaped kept).length ≤ osSize8192 :=
      (length_escaped_mono initial).trans (Nat.le_of_lt_succ short)
    rw [format_line hidden (fun member => plain (initial.subset member)) printable fits] at sent
    have room : 0 < osMaxstr - 4 - (escaped kept).length := by
      simp only [osMaxstr, osSize8192] at fits ⊢
      omega
    have part : message.take (osMaxstr - 4 - (escaped kept).length) ≠ [] := by
      rw [Ne, take_eq_nil_iff, not_or]
      exact ⟨room.ne', said⟩
    constructor
    · rintro ⟨line, document, made, parsed, asQueue, asLocation, asMessage⟩
      rw [sent] at made
      cases made
      have unmarked : '|' ∉ kept := by
        intro marked
        obtain ⟨text, read, more⟩ := parseLegacyEvent_marked marked parsed
        rw [asLocation] at read
        cases read
        omega
      obtain ⟨merged, merge, rfl⟩ := (parseLegacyEvent_plain unmarked left part document).mp parsed
      obtain rfl : kept = location := Option.some.inj asLocation
      have all : message.take (osMaxstr - 4 - (escaped kept).length) = message :=
        Option.some.inj asMessage
      rw [take_eq_self_iff] at all
      exact ⟨unmarked, whole.mp rfl, by omega, hidden, merged, merge, asQueue⟩
    · rintro ⟨unmarked, uncut, line, _, merged, merge, asQueue⟩
      obtain rfl := whole.mpr uncut
      refine ⟨_, _, sent, (parseLegacyEvent_plain unmarked left part _).mpr ⟨merged, merge, rfl⟩,
        asQueue, rfl, ?_⟩
      rw [take_of_length_le (by omega)]

def noMetadata (document : Document) : Except String Document := .ok document

theorem legacy_event_read_back_iff_colon :
    (∃ line document, sendMSGAction "up".toList "a:b".toList '1' = some line ∧
      parseLegacyEvent noMetadata line = .ok document ∧ document.queue = some '1'.toNat ∧
      document.location = some "a:b".toList ∧ document.message = some "up".toList) ↔
    Framed noMetadata '1' "a:b".toList "up".toList :=
  legacy_event_read_back_iff noMetadata (by decide) (by decide) (by decide) (by decide) (by decide)
    (by decide)

/-- A `|` inside the location is read twice, and one at its end moves the separator into the
message. -/
theorem legacy_event_misread :
    (sendMSGAction "m".toList "a|b".toList '1').map (parseLegacyEvent noMetadata) =
      some (.ok ⟨some '1'.toNat, some "a||b".toList, some "m".toList⟩) ∧
    (sendMSGAction "b:c".toList "a|".toList '1').map (parseLegacyEvent noMetadata) =
      some (.ok ⟨some '1'.toNat, some "a|:b".toList, some "c".toList⟩) := by
  decide +kernel

end GuardSarm.Engine
