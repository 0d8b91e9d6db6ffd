import GuardSarm.Remote.SecureMessage

/-! The key store of a process and the files of the rids directory behind it. Each agent's entry
keeps the counters of the last message accepted; they are written to the agent's file only
when the shared count of messages has reached the flush limit, and read back when the keys
are loaded. A file is overwritten from its start and never truncated. -/
namespace GuardSarm.Remote

structure RidsFile where
  inode : Nat
  content : Text

/-- `%u:%u:`. -/
def countersText (counters : Counters) : Text :=
  decimal counters.globalCount ++ ":".toList ++ decimal counters.localCount ++ ":".toList

/-- The rids directory, and the inode that the next new file gets. -/
structure Directory where
  files : Text → Option RidsFile
  next : Nat

namespace Directory

/-- `File_Inode`. -/
def inode (d : Directory) (name : Text) : Nat := ((d.files name).map RidsFile.inode).getD 0

/-- `wfopen(.., "r+")`, and `wfopen(.., "w")` where there is no file. -/
def opened (d : Directory) (name : Text) : Directory :=
  if (d.files name).isSome then d
  else ⟨Function.update d.files name (some ⟨d.next, []⟩), d.next + 1⟩

/-- `fprintf` of the counters at the start of the file. -/
def write (d : Directory) (name : Text) (counters : Counters) : Directory :=
  let text := countersText counters
  let d := d.opened name
  { d with files := Function.update d.files name ((d.files name).map fun file =>
      { file with content := text ++ file.content.drop text.length }) }

end Directory

/-- `fscanf(.., "%u:%u", ..)`, with zeros where it does not read two numbers. -/
def readCounters (content : Text) : Counters :=
  match scanInt content with
  | some (g, ':' :: rest) =>
    match scanInt rest with
    | some (l, _) => ⟨unsigned g, unsigned l⟩
    | none => ⟨0, 0⟩
  | _ => ⟨0, 0⟩

/-- The fields of `keyentry` that the messages depend on. The id of an agent has at most 8 digits. -/
structure KeyEntry where
  id : Text
  key : Text
  singleHost : Bool
  method : Method
  counters : Counters
  inode : Nat
  digits : ∀ c ∈ id, c.isDigit = true
  short : id.length ≤ 8

/-- A process: its key store, its part of the directory, the counters of the sender with the inode of
their file, and the count of messages received since the last flush. -/
structure Process where
  entries : List KeyEntry
  directory : Directory
  senderCounters : Counters
  senderInode : Nat
  rcvCount : Nat
  recvFlush : Nat
  verifyCounter : Bool

def senderFile : Text := "sender_counter".toList

/-- One round of `OS_StartCounter`. A new file leaves the counters as they are. -/
def KeyEntry.started (entry : KeyEntry) (d : Directory) : KeyEntry :=
  match d.files entry.id with
  | some file => { entry with counters := readCounters file.content, inode := file.inode }
  | none => { entry with inode := (d.opened entry.id).inode entry.id }

def startEntries (d : Directory) : List KeyEntry → Directory × List KeyEntry
  | [] => (d, [])
  | entry :: rest =>
    let (final, started) := startEntries (d.opened entry.id) rest
    (final, entry.started d :: started)

namespace Process

/-- `OS_StartCounter`. -/
def startCounter (p : Process) : Process :=
  let (d, entries) := startEntries p.directory p.entries
  { p with
    entries := entries
    directory := d.opened senderFile
    senderCounters := match d.files senderFile with
      | some file => readCounters file.content
      | none => p.senderCounters
    senderInode := (d.opened senderFile).inode senderFile }

/-- `OS_AddKey` for each line of the key file: the counters are zero. -/
def readKeys (entries : List KeyEntry) : List KeyEntry :=
  entries.map fun entry => { entry with method := .blowfish, counters := ⟨0, 0⟩, inode := 0 }

/-- `OS_UpdateKeys` with these agents in the key file. What `move_netdata` takes over from the old
entries is not among the fields here. -/
def updateKeys (p : Process) (entries : List KeyEntry) : Process :=
  startCounter { p with entries := readKeys entries }

def setEntry (p : Process) (id : Nat) (entry : KeyEntry) : Process :=
  { p with entries := p.entries.set id entry }

/-- `ReloadCounter` for an agent. -/
def reloadCounter (p : Process) (id : Nat) (entry : KeyEntry) : Process × KeyEntry :=
  let newInode := p.directory.inode entry.id
  if entry.inode = newInode then (p, entry)
  else
    let reloaded := match p.directory.files entry.id with
      | some file => { entry with counters := readCounters file.content, inode := newInode }
      | none => { entry with inode := newInode }
    ({ p with directory := p.directory.opened entry.id }.setEntry id reloaded, reloaded)

/-- The counters of an accepted message are kept, and stored once the flush limit is reached. -/
def accept (p : Process) (id : Nat) (entry : KeyEntry) (counters : Counters) : Process :=
  let p := p.setEntry id { entry with counters := counters }
  if p.recvFlush ≤ p.rcvCount then
    { p with directory := p.directory.write entry.id counters, rcvCount := 1 }
  else { p with rcvCount := p.rcvCount + 1 }

/-- The rest of `ReadSecMSG` for a compressed message. A global count below the one kept is answered
as a wrong key. -/
def countCompressed (p : Process) (id : Nat) (entry : KeyEntry) (counters : Counters) :
    Verdict × Process :=
  if p.verifyCounter then
    let (p, entry) := if p.recvFlush ≤ p.rcvCount then p.reloadCounter id entry else (p, entry)
    if counters.Exceeds entry.counters then (.valid, p.accept id entry counters)
    else if counters.globalCount = entry.counters.globalCount then (.rids, p)
    else (.encKey, p)
  else (.valid, p.accept id entry counters)

/-- The rest of `ReadSecMSG` for a message of the old format: the payload is what follows the next
colon, and the byte after it. -/
def countOld (p : Process) (id : Nat) (entry : KeyEntry) (counters : Counters) (rest : Text) :
    Verdict × Option Text × Process :=
  let output (kept : Counters) : Verdict × Option Text × Process :=
    let p := p.setEntry id { entry with counters := kept }
    match (cString rest).dropWhile (· != ':') with
    | [] => (.corrupt, none, p)
    | _ :: _ => (.valid, some ((rest.dropWhile (· != ':')).tail ++ [nul]), p)
  if !p.verifyCounter then output ⟨counters.globalCount, 0⟩
  else if counters.Exceeds entry.counters then output counters
  else (.rids, none, p)

/-- `ReadSecMSG`: the value returned, the output and the process after it. -/
def readSecMSG (crypto : Crypto) (p : Process) (id : Nat) (buffer : Text) :
    Option (Verdict × Option Text × Process) :=
  p.entries[id]?.map fun entry =>
    let entry := { entry with method := (cryptoToken buffer).1 }
    let p := p.setEntry id entry
    match decode crypto entry.key buffer with
    | .error verdict => (verdict, none, p)
    | .ok (.old counters rest) => p.countOld id entry counters rest
    | .ok (.compressed counters payload) =>
      let (verdict, p) := p.countCompressed id entry counters
      (verdict, if verdict = .valid then some payload else none, p)

/-- `ReloadCounter` for the sender. -/
def reloadSender (p : Process) : Process :=
  let newInode := p.directory.inode senderFile
  if p.senderInode = newInode then p
  else
    { p with
      directory := p.directory.opened senderFile
      senderCounters := match p.directory.files senderFile with
        | some file => readCounters file.content
        | none => p.senderCounters
      senderInode := newInode }

def nextCounters (p : Process) : Counters :=
  let counters := p.reloadSender.senderCounters
  if 9997 ≤ counters.localCount then ⟨(counters.globalCount + 1) % 2 ^ 32, 1⟩
  else ⟨counters.globalCount, counters.localCount + 1⟩

/-- What stands before the token: on the agent, its id where its address is not that of one host. -/
def dynamicID (isAgent : Bool) (entry : KeyEntry) : Text :=
  if !entry.singleHost && isAgent then "!".toList ++ entry.id ++ "!".toList else []

/-- `CreateSecMSG`: the message, none where it returns 0, and the process after it. The counters are
stored only when a message is made. -/
def createSecMSG (crypto : Crypto) (isAgent : Bool) (p : Process) (id rand : Nat) (msg : Text) :
    Option Text × Process :=
  match p.entries[id]? with
  | none => (none, p)
  | some entry =>
    if osMaxstr - osHeaderSize < msg.length ∨ msg.length < 1 then (none, p)
    else
      let p := { p.reloadSender with senderCounters := p.nextCounters }
      match encode crypto entry.method entry.key (rand % 2 ^ 16) p.senderCounters msg with
      | none => (none, p)
      | some wire => (some (dynamicID isAgent entry ++ wire),
          { p with directory := p.directory.write senderFile p.senderCounters })

/-- A new process on the same directory. -/
def restart (p : Process) (entries : List KeyEntry) : Process :=
  { p with senderCounters := ⟨0, 0⟩, rcvCount := 0 }.updateKeys entries

end Process

/-- `HandleSecureMessage` up to `ReadSecMSG`: an id between exclamation marks is passed over. -/
def dropDynamicID : Text → Option Text
  | '!' :: rest =>
    match rest.dropWhile Char.isDigit with
    | '!' :: wire => some wire
    | _ => none
  | buffer => some buffer

end GuardSarm.Remote
