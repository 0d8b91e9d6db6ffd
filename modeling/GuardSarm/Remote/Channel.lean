import GuardSarm.Remote.Replay

/-! A sender and a receiver of secure messages. `CreateSecMSG` raises the sender's counters, writes
them into the message and then to the sender's file, from where a restart takes them; each
message reaches the receiver, in order. -/
namespace GuardSarm.Remote

open List Option

/-- What the external functions are assumed to do. `inflate` stops at the end of a block, whatever
zeros follow it. -/
structure Crypto.Lawful (crypto : Crypto) : Prop where
  blowfish : ∀ key text, text.length % 8 = 0 →
    crypto.blowfishDecrypt key (crypto.blowfishEncrypt key text) = text ∧
      (crypto.blowfishEncrypt key text).length = text.length
  aes : ∀ key text, crypto.aesDecrypt key (crypto.aesEncrypt key text) = some text ∧
    text.length ≤ (crypto.aesEncrypt key text).length
  inflate : ∀ text zeros, crypto.inflate (crypto.deflate text ++ List.replicate zeros nul) = some text
  unmarked : ∀ text, (crypto.deflate text).head? ≠ some '!'
  fits : ∀ text, text.length ≤ osMaxstr - osHeaderSize + msgOverhead →
    (crypto.deflate text).length ≤ osMaxstr - 12
  md5 : ∀ text, (crypto.md5 text).length = 32

section form

variable {crypto : Crypto} {key msg : Text} {rand : Nat} {counters : Counters} {method : Method}

/-- The widths that the receiver assumes. -/
structure FixedWidth (rand : Nat) (counters : Counters) : Prop where
  rand : (padded 5 rand).length = 5
  globalCount : (padded 10 counters.globalCount).length = 10
  localCount : (padded 4 counters.localCount).length = 4

theorem FixedWidth.length (width : FixedWidth rand counters) :
    (header rand counters).length = 21 := by
  simp [header, width.rand, width.globalCount, width.localCount]

theorem fixedWidth (random : rand < 2 ^ 16) (first : counters.globalCount < 2 ^ 32)
    (second : counters.localCount < 10 ^ 4) : FixedWidth rand counters where
  rand := length_padded (by decide) (by omega)
  globalCount := length_padded (by decide) (by omega)
  localCount := length_padded (by decide) second

/-- The fields are where the receiver looks for them. -/
theorem readCompressed_sealed (lawful : crypto.Lawful) (width : FixedWidth rand counters)
    (first : counters.globalCount < 2 ^ 32) (second : counters.localCount < 2 ^ 32) :
    readCompressed crypto
      (crypto.md5 (sealedText rand counters msg) ++ sealedText rand counters msg) =
      .ok (.compressed counters msg) := by
  have long : ¬(crypto.md5 (sealedText rand counters msg) ++ sealedText rand counters msg).length <
      msgOverhead := by
    simp only [length_append, lawful.md5, sealedText, width.length, msgOverhead]
    omega
  have sum := lawful.md5 (sealedText rand counters msg)
  rw [readCompressed, if_neg long, take_left' sum, drop_left' sum, if_neg (by simp)]
  have fields : (sealedText rand counters msg).drop 5 = padded 10 counters.globalCount ++
      ':' :: (padded 4 counters.localCount ++ ':' :: msg) := by
    rw [sealedText, header]
    simp only [append_assoc]
    exact drop_left' width.rand
  have colon : ∀ {rest : Text} c, (':' :: rest).head? = some c → c.isDigit = false := by
    rintro rest c ⟨⟩
    rfl
  simp only [fields, atoiUnsigned_padded first colon, drop_left' width.globalCount,
    atoiUnsigned_padded second colon, drop_left' width.localCount]

theorem length_padding (block : Text) : (padding block.length ++ block).length % 8 = 0 := by
  rw [padding, length_append, length_replicate]
  split <;> omega

theorem cryptoToken_token (method : Method) (cipher : Text) :
    cryptoToken (method.token ++ cipher) = (method, ':' :: cipher) := by
  cases method with
  | blowfish => rfl
  | aes => rfl

theorem decrypt_encrypt (lawful : crypto.Lawful) {text : Text} (given : text ≠ [])
    (whole : text.length % 8 = 0) :
    crypto.decrypt key method (crypto.encrypt method key text) = some text := by
  cases method with
  | blowfish => rw [Crypto.decrypt, Crypto.encrypt, (lawful.blowfish key text whole).1]
  | aes =>
    rw [Crypto.decrypt, Crypto.encrypt, (lawful.aes key text).1]
    simpa using given

/-- The marks of padding are stripped, and the zeros after the block do no harm. -/
theorem readClear_padded (lawful : crypto.Lawful) (bufferSize : Nat) {text : Text}
    (short : text.length ≤ osMaxstr) :
    readClear crypto bufferSize (padding (crypto.deflate text).length ++ crypto.deflate text) =
      readCompressed crypto text := by
  obtain ⟨marks, marked⟩ : ∃ marks, padding (crypto.deflate text).length =
      '!' :: List.replicate marks '!' := 
    ⟨_, by rw [padding, Nat.add_comm]; exact replicate_succ⟩
  rw [readClear, marked, cons_append, cons_append, append_assoc]
  generalize bufferSize - _ = zeros
  have head : (crypto.deflate text ++ List.replicate zeros nul).dropWhile (· == '!') =
      crypto.deflate text ++ List.replicate zeros nul := by
    rw [dropWhile_eq_self_iff]
    intro inside first
    have unmarked := lawful.unmarked text
    cases block : crypto.deflate text with
    | nil =>
      simp only [block, nil_append, getElem_replicate, beq_iff_eq] at first
      exact absurd first (by decide)
    | cons c rest =>
      simp only [block, head?_cons, ne_eq, Option.some.injEq] at unmarked
      simp only [block, cons_append, getElem_cons_zero, beq_iff_eq] at first
      exact unmarked first
  have stripped : (List.replicate marks '!' ++ (crypto.deflate text ++ List.replicate zeros nul)).dropWhile
      (· == '!') = crypto.deflate text ++ List.replicate zeros nul := by
    rw [dropWhile_append_of_pos, head]
    intro c member
    rw [eq_of_mem_replicate member]
    rfl
  simp only [stripped, Crypto.zlibUncompress, lawful.inflate, filter_some, decide_eq_true short,
    if_true]

/-- A message that is sealed and sent is decoded to its counters and its payload. -/
theorem decode_encode (lawful : crypto.Lawful) (width : FixedWidth rand counters)
    (first : counters.globalCount < 2 ^ 32) (second : counters.localCount < 2 ^ 32)
    (short : msg.length ≤ osMaxstr - osHeaderSize) :
    ∃ wire, encode crypto method key rand counters msg = some wire ∧
      wire.head? ≠ some '!' ∧ decode crypto key wire = .ok (.compressed counters msg) := by
  have size : (crypto.md5 (sealedText rand counters msg) ++ sealedText rand counters msg).length ≤
      osMaxstr - osHeaderSize + msgOverhead := by
    simp only [length_append, lawful.md5, sealedText, width.length, msgOverhead]
    omega
  refine ⟨_, by rw [encode, Crypto.zlibCompress, if_pos (lawful.fits _ size)]; rfl, ?_, ?_⟩
  · cases method <;> exact fun head => absurd (Option.some.inj head) (by decide)
  have marked (block : Text) : padding block.length ++ block ≠ [] := by simp [padding]
  rw [decode, cryptoToken_token]
  simp only [decrypt_encrypt lawful (marked _) (length_padding _)]
  rw [readClear_padded lawful _ (size.trans (by decide)),
    readCompressed_sealed lawful width first second]

end form

/-- A message sent: its counters and header, and what the receiver made of it. -/
structure Delivery where
  message : Text
  counters : Counters
  header : Text
  verdict : Verdict
  output : Option Text

/-- Two processes, and what was sent from one to an entry of the other. -/
structure Channel where
  sender : Process
  receiver : Process
  log : List Delivery

/-- What happens on the sender's side. The method of an entry may change at any time. -/
inductive Sending
  | send (id rand : Nat) (msg : Text)
  | setMethod (id : Nat) (method : Method)
  | restart (entries : List KeyEntry)

def Sending.message? : Sending → Option Text
  | .send _ _ msg => some msg
  | _ => none

/-- A message as the receiver's process takes it. -/
def Process.receive (crypto : Crypto) (p : Process) (target : Nat) (buffer : Text) :
    Verdict × Option Text × Process :=
  match dropDynamicID buffer with
  | none => (.corrupt, none, p)
  | some wire => (p.readSecMSG crypto target wire).getD (.encKey, none, p)

def Channel.step (crypto : Crypto) (isAgent : Bool) (target : Nat) (c : Channel) : Sending → Channel
  | .send id rand msg =>
    match c.sender.createSecMSG crypto isAgent id rand msg with
    | (none, sender) => { c with sender := sender }
    | (some buffer, sender) =>
      let (verdict, output, receiver) := c.receiver.receive crypto target buffer
      ⟨sender, receiver, c.log ++ [⟨msg, sender.senderCounters,
        header (rand % 2 ^ 16) sender.senderCounters, verdict, output⟩]⟩
  | .setMethod id method =>
    { c with sender := { c.sender with
        entries := c.sender.entries.modify id fun entry => { entry with method := method } } }
  | .restart entries => { c with sender := c.sender.restart entries }

/-- What is sent has the length of a message and is for the entry's key, and the global count stays
below 2^31. -/
def Channel.Sends (key : Text) (c : Channel) : Sending → Prop
  | .send id _ msg => 1 ≤ msg.length ∧ msg.length ≤ osMaxstr - osHeaderSize ∧
      c.sender.senderCounters.globalCount < 2 ^ 31 ∧ c.sender.nextCounters.globalCount < 2 ^ 31 ∧
      (c.sender.entries[id]?).map KeyEntry.key = some key
  | _ => True

instance (key : Text) (c : Channel) (act : Sending) : Decidable (c.Sends key act) :=
  match act with
  | .send _ _ _ => inferInstanceAs (Decidable (_ ∧ _))
  | .setMethod _ _ | .restart _ => .isTrue trivial

/-- The sender's counters are those in its file. -/
def Process.Stored (p : Process) : Prop :=
  ∃ file, p.directory.files senderFile = some file ∧ file.inode = p.senderInode ∧
    readCounters file.content = p.senderCounters

section stored

variable {p : Process} {counters : Counters}

/-- The counters are read back whatever is left of the text before. -/
theorem readCounters_written (first : counters.globalCount < 2 ^ 32)
    (second : counters.localCount < 2 ^ 32) (rest : Text) :
    readCounters (countersText counters ++ rest) = counters := by
  have colon : ∀ {rest : Text} c, (':' :: rest).head? = some c → c.isDigit = false := by
    rintro rest c ⟨⟩
    rfl
  simp only [countersText, append_assoc, readCounters]
  rw [scanInt_decimal _ (by exact colon)]
  simp only [cons_append, String.reduceToList, nil_append]
  rw [scanInt_decimal _ colon]
  simp [unsigned_natCast first, unsigned_natCast second]

theorem Process.Stored.reload (stored : p.Stored) : p.reloadSender = p := by
  obtain ⟨file, there, inode, _⟩ := stored
  rw [reloadSender]
  apply if_pos
  rw [Directory.inode, there]
  exact inode.symm

/-- The next counters, while the global count stays below 2^31: later, and of four digits. -/
theorem Process.Stored.next (stored : p.Stored) (low : p.senderCounters.globalCount < 2 ^ 31) :
    p.nextCounters.Exceeds p.senderCounters ∧ p.nextCounters.localCount < 10 ^ 4 := by
  rw [nextCounters, stored.reload]
  split
  · refine ⟨.inl ?_, by simp⟩
    simp only
    omega
  · refine ⟨.inr ⟨rfl, ?_⟩, ?_⟩
    · simp only
      omega
    · simp only
      omega

/-- The sender once these counters are sent and stored. -/
def Process.advanced (p : Process) (counters : Counters) : Process :=
  { p with senderCounters := counters, directory := p.directory.write senderFile counters }

/-- Storing the counters keeps the file and its inode. -/
theorem Process.Stored.advanced (stored : p.Stored) (first : counters.globalCount < 2 ^ 32)
    (second : counters.localCount < 2 ^ 32) : (p.advanced counters).Stored := by
  obtain ⟨file, there, inode, _⟩ := stored
  have opened : (p.directory.opened senderFile).files senderFile = some file := by
    rw [Directory.files_opened_of_isSome (by rw [there]; rfl), there]
  refine ⟨⟨file.inode, countersText counters ++ file.content.drop (countersText counters).length⟩,
    ?_, inode, readCounters_written first second _⟩
  simp only [Process.advanced, Directory.write, opened, Function.update_self, map_some]

/-- A restart opens the sender's file, and takes the counters from it. -/
theorem Process.stored_restart (p : Process) (entries : List KeyEntry) :
    (p.restart entries).Stored := by
  unfold restart updateKeys startCounter
  simp only
  generalize (startEntries p.directory (readKeys entries)).1 = d
  cases there : d.files senderFile with
  | some file =>
    have opened : (d.opened senderFile).files senderFile = some file := by
      rw [Directory.files_opened_of_isSome (by rw [there]; rfl), there]
    refine ⟨file, opened, ?_, rfl⟩
    rw [Directory.inode, opened]
    rfl
  | none =>
    have opened : (d.opened senderFile).files senderFile = some ⟨d.next, []⟩ := by
      simp [Directory.opened, there]
    refine ⟨_, opened, ?_, rfl⟩
    rw [Directory.inode, opened]
    rfl

theorem Process.Stored.restart (stored : p.Stored) (entries : List KeyEntry) :
    (p.restart entries).senderCounters = p.senderCounters := by
  obtain ⟨file, there, _, read⟩ := stored
  have kept := (startEntries_spec p.directory (readKeys entries)).2.1 senderFile
    (by rw [there]; rfl)
  unfold Process.restart updateKeys startCounter
  simp only [kept, there, read]

end stored

section sending

variable {crypto : Crypto} {isAgent : Bool} {key msg wire payload : Text} {rand id target : Nat}
  {entry : KeyEntry} {p : Process} {counters : Counters}

theorem dropDynamicID_append (plain : wire.head? ≠ some '!') :
    dropDynamicID (Process.dynamicID isAgent entry ++ wire) = some wire := by
  rw [Process.dynamicID]
  split
  · have digits : (entry.id ++ '!' :: wire).dropWhile Char.isDigit = '!' :: wire := by
      rw [dropWhile_append_of_pos entry.digits]
      rfl
    have whole : "!".toList ++ entry.id ++ "!".toList ++ wire = '!' :: (entry.id ++ '!' :: wire) := by
      simp
    rw [whole, dropDynamicID, digits]
    rfl
  · rw [nil_append]
    cases wire with
    | nil => rfl
    | cons c wire =>
      rw [dropDynamicID]
      rintro rest ⟨⟩
      exact plain rfl

/-- A message whose counters exceed the entry's is accepted. -/
theorem Process.readSecMSG_accepts (linked : p.Linked) (verifying : p.verifyCounter = true)
    (found : p.entries[target]? = some entry)
    (decoded : decode crypto entry.key wire = .ok (.compressed counters payload))
    (later : counters.Exceeds entry.counters) :
    ∃ p', p.readSecMSG crypto target wire = some (.valid, some payload, p') := by
  have link := (linked entry (mem_of_getElem? found)).2
  have check : (p.setEntry target { entry with method := (cryptoToken wire).1 }).countCompressed target
      { entry with method := (cryptoToken wire).1 } counters = _ :=
    countCompressed_eq verifying link
  rw [readSecMSG, found, map_some]
  simp only [decoded, check, if_pos later]
  exact ⟨_, rfl⟩

/-- What is sent for an entry, and what the sender is then. -/
theorem Process.createSecMSG_eq (isAgent : Bool) (rand : Nat) (lawful : crypto.Lawful) (stored : p.Stored)
    (found : p.entries[id]? = some entry) (given : 1 ≤ msg.length)
    (short : msg.length ≤ osMaxstr - osHeaderSize)
    (low : p.senderCounters.globalCount < 2 ^ 31) (next : p.nextCounters.globalCount < 2 ^ 31) :
    ∃ wire, wire.head? ≠ some '!' ∧
      decode crypto entry.key wire = .ok (.compressed p.nextCounters msg) ∧
      p.createSecMSG crypto isAgent id rand msg =
        (some (dynamicID isAgent entry ++ wire), p.advanced p.nextCounters) := by
  have small := (stored.next low).2
  have width : FixedWidth (rand % 2 ^ 16) p.nextCounters :=
    fixedWidth (Nat.mod_lt _ (by decide)) (by omega) small
  obtain ⟨wire, encoded, plain, decoded⟩ :
      ∃ wire, encode crypto entry.method entry.key (rand % 2 ^ 16) p.nextCounters msg = some wire ∧
        wire.head? ≠ some '!' ∧ decode crypto entry.key wire = .ok (.compressed p.nextCounters msg) :=
    decode_encode lawful width (by omega) (by omega) short
  refine ⟨wire, plain, decoded, ?_⟩
  rw [createSecMSG, found]
  simp only [stored.reload, encoded]
  exact if_neg (by omega)

end sending

/-- How the receiver's part and the log stand to the sender's counters. -/
structure Channel.Synced (key : Text) (target : Nat) (c : Channel) : Prop where
  stored : c.sender.Stored
  verify : c.receiver.verifyCounter = true
  linked : c.receiver.Linked
  entry : ∃ entry, c.receiver.entries[target]? = some entry ∧ entry.key = key ∧
    ¬entry.counters.Exceeds c.sender.senderCounters
  sent : ∀ delivery ∈ c.log, ¬delivery.counters.Exceeds c.sender.senderCounters

/-- The receiver got the message, and the header has the width that it assumes. -/
structure Delivery.Recovered (d : Delivery) : Prop where
  valid : d.verdict = .valid
  output : d.output = some d.message
  width : d.header.length = 21 ∧ d.header[15]? = some ':' ∧ d.header[20]? = some ':'

/-- Every message was recovered, and the counters grew. -/
structure Channel.Faithful (c : Channel) (messages : List Text) : Prop where
  all : c.log.map Delivery.message = messages
  recovered : ∀ delivery ∈ c.log, delivery.Recovered
  increasing : c.log.Pairwise fun earlier later => later.counters.Exceeds earlier.counters

theorem FixedWidth.colons {rand : Nat} {counters : Counters} (width : FixedWidth rand counters) :
    (header rand counters)[15]? = some ':' ∧ (header rand counters)[20]? = some ':' := by
  have first : (padded 5 rand ++ padded 10 counters.globalCount).length = 15 := by
    simp [width.rand, width.globalCount]
  constructor
  · rw [header, append_assoc, append_assoc, getElem?_append_right first.le, first]
    rfl
  · rw [header, getElem?_append_right (by simp [width.rand, width.globalCount, width.localCount])]
    simp [width.rand, width.globalCount, width.localCount]

namespace Channel

variable {crypto : Crypto} {isAgent : Bool} {key : Text} {target : Nat} {c : Channel}

theorem Synced.send {id rand : Nat} {msg : Text} (lawful : crypto.Lawful)
    (synced : c.Synced key target) (sends : c.Sends key (.send id rand msg)) :
    ∃ delivery : Delivery, delivery.message = msg ∧ delivery.Recovered ∧
      (∀ earlier ∈ c.log, delivery.counters.Exceeds earlier.counters) ∧
      (c.step crypto isAgent target (.send id rand msg)).log = c.log ++ [delivery] ∧
      (c.step crypto isAgent target (.send id rand msg)).Synced key target := by
  obtain ⟨given, short, low, next, keyed⟩ := sends
  obtain ⟨origin, found, rfl⟩ := map_eq_some_iff.mp keyed
  obtain ⟨wire, plain, decoded, created⟩ :=
    Process.createSecMSG_eq isAgent rand lawful synced.stored found given short low next
  obtain ⟨later, small⟩ := synced.stored.next low
  obtain ⟨entry, at_, same, behind⟩ := synced.entry
  have exceeds := Counters.exceeds_of_not_exceeds later behind
  obtain ⟨receiver, ran⟩ := Process.readSecMSG_accepts synced.linked synced.verify at_
    (same ▸ decoded) exceeds
  have received : c.receiver.receive crypto target (Process.dynamicID isAgent origin ++ wire) =
      (.valid, some msg, receiver) := by
    rw [Process.receive, dropDynamicID_append plain]
    simp [ran]
  have width : FixedWidth (rand % 2 ^ 16) c.sender.nextCounters :=
    fixedWidth (Nat.mod_lt _ (by decide)) (by omega) small
  have after : c.step crypto isAgent target (.send id rand msg) =
      ⟨c.sender.advanced c.sender.nextCounters, receiver, c.log ++ [⟨msg, c.sender.nextCounters,
        header (rand % 2 ^ 16) c.sender.nextCounters, .valid, some msg⟩]⟩ := by
    rw [Channel.step, created]
    simp only [received]
    rfl
  rw [after]
  refine ⟨_, rfl, ⟨rfl, rfl, width.length, width.colons⟩, ?_, rfl, ?_⟩
  · intro earlier member
    exact Counters.exceeds_of_not_exceeds later (synced.sent earlier member)
  · obtain ⟨e, e', read⟩ := Process.readStep synced.linked synced.verify ran
    obtain rfl : e = entry := Option.some.inj (read.found.symm.trans at_)
    have incoming : c.receiver.incoming crypto target wire = some (e, c.sender.nextCounters) := by
      rw [Process.incoming_eq at_, same, decoded]
    have counted := (read.checked e _ incoming).2
    rw [if_pos exceeds] at counted
    have still := c.sender.nextCounters.not_exceeds_self
    refine ⟨synced.stored.advanced (by omega) (by omega), read.verify.trans synced.verify,
      Guarded.linked_read read synced.linked, ⟨e', ?_, read.same.2.2.trans same, ?_⟩, ?_⟩
    · rw [read.entries, List.getElem?_set_self (List.getElem?_eq_some_iff.mp at_).1]
    · rw [counted.2]
      exact still
    · intro delivery member
      rcases mem_append.mp member with old | new
      · exact Counters.not_exceeds_trans (synced.sent delivery old)
          (Counters.not_exceeds_of_exceeds later)
      · rw [mem_singleton.mp new]
        exact still

/-- **Secure messages.** In every run of a sender with restarts, every message is accepted by the
receiver and recovered, the headers have the width that the receiver assumes, and the counters
increase. -/
theorem sent_messages_recovered (lawful : crypto.Lawful) (isAgent : Bool)
    (sender receiver : Process) (senderKeys receiverKeys : List KeyEntry) {entry : KeyEntry}
    (verifying : receiver.verifyCounter = true)
    (loaded : (receiver.updateKeys receiverKeys).entries[target]? = some entry)
    (behind : ¬entry.counters.Exceeds (sender.restart senderKeys).senderCounters)
    {acts : List Sending} (run : Steps
      (Meeting (Sends entry.key) fun c act c' => c.step crypto isAgent target act = c')
      ⟨sender.restart senderKeys, receiver.updateKeys receiverKeys, []⟩ acts c) :
    c.Faithful (acts.filterMap Sending.message?) := by
  obtain ⟨_, linked, verify, _⟩ := receiver.updateKeys_spec receiverKeys
  have start : Synced entry.key target
      ⟨sender.restart senderKeys, receiver.updateKeys receiverKeys, []⟩ :=
    ⟨sender.stored_restart senderKeys, verify.trans verifying, linked,
      ⟨entry, loaded, rfl, behind⟩, by simp⟩
  refine (run.history (P := fun acts c => c.Synced entry.key target ∧
    c.Faithful (acts.filterMap Sending.message?)) ?_ ⟨start, rfl, by simp, .nil⟩).2
  rintro acts c act c' ⟨sends, rfl⟩ ⟨synced, all, recovered, increasing⟩
  rw [filterMap_append]
  cases act with
  | send id rand msg =>
    obtain ⟨delivery, message, got, later, log, synced⟩ := synced.send lawful sends
    refine ⟨synced, ?_, ?_, ?_⟩
    · rw [log, map_append, all, map_singleton, message]
      rfl
    · rw [log]
      exact forall_mem_append.mpr ⟨recovered, by simpa using got⟩
    · rw [log]
      exact pairwise_append.mpr ⟨increasing, pairwise_singleton _ _, by simpa using later⟩
  | setMethod id method =>
    refine ⟨⟨synced.stored, synced.verify, synced.linked, synced.entry, synced.sent⟩, ?_, recovered,
      increasing⟩
    exact all.trans (append_nil _).symm
  | restart entries =>
    have same := synced.stored.restart entries
    refine ⟨⟨c.sender.stored_restart entries, synced.verify, synced.linked, ?_, ?_⟩, ?_, recovered,
      increasing⟩
    · exact same ▸ synced.entry
    · exact same ▸ synced.sent
    · exact all.trans (append_nil _).symm

theorem plain_lawful : Crypto.plain.Lawful where
  blowfish _ _ _ := ⟨rfl, rfl⟩
  aes _ text := ⟨rfl, Nat.le_succ text.length⟩
  inflate text zeros := by
    have stop : ∀ c, (';' :: (text ++ List.replicate zeros nul)).head? = some c →
        c.isDigit = false := by
      rintro c ⟨⟩
      rfl
    have block : Crypto.plain.deflate text ++ List.replicate zeros nul =
        decimal text.length ++ ';' :: (text ++ List.replicate zeros nul) := by
      simp [Crypto.plain]
    rw [block]
    show (scanInt _).map _ = _
    rw [scanInt_decimal _ stop]
    simp
  unmarked text := by
    intro head
    obtain ⟨first, rest, digits⟩ := exists_cons_of_ne_nil (decimal_ne_nil text.length)
    have digit : first.isDigit = true :=
      isDigit_of_mem_decimal (n := text.length) (by rw [digits]; exact mem_cons_self)
    simp only [Crypto.plain, digits, cons_append, head?_cons, Option.some.injEq] at head
    subst head
    exact absurd digit (by decide)
  fits text short := by
    have five : (decimal text.length).length ≤ 5 :=
      (Nat.length_toDigits_le_iff (by decide) (by decide)).mpr
        (short.trans_lt (by decide))
    have bound : text.length ≤ 65461 := short
    simp only [Crypto.plain, length_append, length_cons, osMaxstr]
    omega
  md5 _ := length_replicate

/-- Two messages, with a restart and a change of the cipher between them. -/
def sampleSending : List Sending :=
  [.send 0 7 "hello".toList, .restart [sampleEntry], .setMethod 0 .aes, .send 0 8 "again".toList]

theorem sent_messages_recovered_restart : ∃ c,
    Steps (Meeting (Sends "k".toList) fun c act c' => c.step .plain true 0 act = c')
      ⟨sampleProcess.restart [sampleEntry], sampleProcess.updateKeys [sampleEntry], []⟩
      sampleSending c ∧ c.Faithful ["hello".toList, "again".toList] ∧
    c.log.map Delivery.counters = [⟨0, 1⟩, ⟨0, 2⟩] := by
  have run : Steps (Meeting (Sends "k".toList) fun c act c' => c.step .plain true 0 act = c')
      ⟨sampleProcess.restart [sampleEntry], sampleProcess.updateKeys [sampleEntry], []⟩
      sampleSending _ :=
    (((Steps.nil.snoc ⟨by decide +kernel, rfl⟩).snoc ⟨trivial, rfl⟩).snoc ⟨trivial, rfl⟩).snoc
      ⟨by decide +kernel, rfl⟩
  obtain ⟨entry, loaded, key, zero⟩ :
      ∃ entry, (sampleProcess.updateKeys [sampleEntry]).entries[0]? = some entry ∧
        entry.key = "k".toList ∧ entry.counters = ⟨0, 0⟩ := ⟨_, rfl, rfl, rfl⟩
  have faithful := sent_messages_recovered plain_lawful true sampleProcess sampleProcess
    [sampleEntry] [sampleEntry] rfl loaded (by rw [zero]; decide +kernel) (key ▸ run)
  exact ⟨_, run, faithful, by decide +kernel⟩

end Channel

end GuardSarm.Remote
