import GuardSarm.Lib.Steps
import GuardSarm.Remote.KeyStore

/-! Replay protection of the receiver. The counters of an agent only grow in memory, but a reload of
the keys takes them from the agent's file, which is behind by as many messages as were
accepted since the last flush; and a message with a lower global count is answered as one
with a wrong key. -/
namespace GuardSarm.Remote

open List

/-- A compressed message that was read: whose it is, its counters and the answer. -/
structure Reading where
  agent : Text
  counters : Counters
  verdict : Verdict
  deriving DecidableEq

/-- A process, and what it has read so far. -/
structure Receiver where
  process : Process
  readings : List Reading

inductive Act
  | read (id : Nat) (buffer : Text)
  | updateKeys (entries : List KeyEntry)

/-- The entry and the counters that a compressed message is checked against and with. -/
def Process.incoming (p : Process) (crypto : Crypto) (id : Nat) (buffer : Text) :
    Option (KeyEntry × Counters) :=
  match p.entries[id]? with
  | none => none
  | some entry =>
    match decode crypto entry.key buffer with
    | .ok (.compressed counters _) => some (entry, counters)
    | _ => none

def Receiver.step (crypto : Crypto) (r : Receiver) : Act → Option Receiver
  | .read id buffer =>
    (r.process.readSecMSG crypto id buffer).map fun (verdict, _, process) =>
      ⟨process, r.readings ++ ((r.process.incoming crypto id buffer).map fun (entry, counters) =>
        ⟨entry.id, counters, verdict⟩).toList⟩
  | .updateKeys entries => some ⟨r.process.updateKeys entries, r.readings⟩

/-- Once a message of the agent is accepted, no later one that does not exceed it is, and each is
answered with `KS_RIDS`. -/
def ReplayFree (agent : Text) (readings : List Reading) : Prop :=
  readings.Pairwise fun earlier later => earlier.agent = agent → later.agent = agent →
    earlier.verdict = .valid → ¬later.counters.Exceeds earlier.counters → later.verdict = .rids

/-- The key file has the agent, once. -/
def hasAgent (agent : Text) (entries : List KeyEntry) : Bool :=
  (entries.map KeyEntry.id).count agent == 1

def keepsAgent (agent : Text) : Act → Bool
  | .read _ _ => true
  | .updateKeys entries => hasAgent agent entries

/-- A reload finds in the agent's file the counters that are in memory; and a message of the agent
does not fall behind in the global count. -/
def timely (crypto : Crypto) (agent : Text) (p : Process) : Act → Bool
  | .read id buffer =>
    match p.incoming crypto id buffer with
    | some (entry, counters) =>
      entry.id != agent || decide (entry.counters.globalCount ≤ counters.globalCount)
    | none => true
  | .updateKeys _ =>
    p.entries.all fun entry => entry.id != agent ||
      (p.directory.files agent).any fun file => readCounters file.content == entry.counters

section directory

variable {d : Directory} {name other : Text} {counters : Counters}

theorem Directory.files_opened_of_isSome (h : (d.files other).isSome) :
    (d.opened name).files other = d.files other := by
  rw [Directory.opened]
  split
  · rfl
  · rename_i missing
    have apart : other ≠ name := by
      rintro rfl
      exact missing h
    exact Function.update_of_ne apart _ _

theorem Directory.isSome_opened (d : Directory) (name : Text) :
    ((d.opened name).files name).isSome := by
  rw [Directory.opened]
  split
  · assumption
  · simp

/-- A file that is there stays, with its inode, whatever is opened or written. -/
theorem Directory.inode_opened (h : (d.files other).isSome) :
    ((d.opened name).files other).isSome ∧ (d.opened name).inode other = d.inode other := by
  rw [Directory.inode, Directory.inode, Directory.files_opened_of_isSome h]
  exact ⟨h, rfl⟩

theorem Directory.files_write_of_ne (apart : other ≠ name) (h : (d.files other).isSome) :
    (d.write name counters).files other = d.files other := by
  rw [Directory.write]
  simp only [Function.update_of_ne apart]
  exact Directory.files_opened_of_isSome h

theorem Directory.inode_write (h : (d.files other).isSome) :
    ((d.write name counters).files other).isSome ∧
      (d.write name counters).inode other = d.inode other := by
  by_cases same : other = name
  · subst same
    obtain ⟨file, there⟩ := Option.isSome_iff_exists.mp h
    simp [Directory.write, Directory.inode, opened, there]
  · rw [Directory.inode, Directory.inode, Directory.files_write_of_ne same h]
    exact ⟨h, rfl⟩

end directory

section counting

variable {c d e : Counters}

theorem Counters.not_exceeds_self (c : Counters) : ¬c.Exceeds c := by
  unfold Counters.Exceeds
  omega

theorem Counters.not_exceeds_of_exceeds (h : c.Exceeds d) : ¬d.Exceeds c := by
  unfold Counters.Exceeds at h ⊢
  omega

theorem Counters.exceeds_of_not_exceeds (later : c.Exceeds d) (behind : ¬e.Exceeds d) :
    c.Exceeds e := by
  unfold Counters.Exceeds at later behind ⊢
  omega

theorem Counters.not_exceeds_trans (first : ¬c.Exceeds d) (second : ¬d.Exceeds e) :
    ¬c.Exceeds e := by
  unfold Counters.Exceeds at first second ⊢
  omega

end counting

namespace Process

variable {p p' : Process} {crypto : Crypto} {id : Nat} {buffer : Text} {verdict : Verdict}
  {output : Option Text} {entry : KeyEntry}

/-- The file of every entry is there, and the entry has its inode. -/
def Linked (p : Process) : Prop :=
  ∀ entry ∈ p.entries, (p.directory.files entry.id).isSome ∧
    p.directory.inode entry.id = entry.inode

/-- A linked entry is never reloaded. -/
theorem reloadCounter_eq (linked : p.directory.inode entry.id = entry.inode) :
    p.reloadCounter id entry = (p, entry) := by
  exact if_pos linked.symm

/-- What one read does: one entry changes, its counters do not fall, and at most its file is
written. -/
structure ReadStep (crypto : Crypto) (p : Process) (id : Nat) (buffer : Text) (verdict : Verdict)
    (p' : Process) (entry entry' : KeyEntry) : Prop where
  found : p.entries[id]? = some entry
  same : entry'.id = entry.id ∧ entry'.inode = entry.inode ∧ entry'.key = entry.key
  entries : p'.entries = p.entries.set id entry'
  verify : p'.verifyCounter = p.verifyCounter
  directory : p'.directory = p.directory ∨ ∃ c, p'.directory = p.directory.write entry.id c
  grown : ¬entry.counters.Exceeds entry'.counters
  checked : ∀ e counters, p.incoming crypto id buffer = some (e, counters) → e = entry ∧
    if counters.Exceeds entry.counters then verdict = .valid ∧ entry'.counters = counters
    else verdict = if counters.globalCount = entry.counters.globalCount then .rids else .encKey

theorem incoming_eq (found : p.entries[id]? = some entry) :
    p.incoming crypto id buffer = match decode crypto entry.key buffer with
      | .ok (.compressed counters _) => some (entry, counters)
      | _ => none := by
  rw [incoming, found]

theorem accept_entries (p : Process) (id : Nat) (entry : KeyEntry) (counters : Counters) :
    (p.accept id entry counters).entries = p.entries.set id { entry with counters := counters } ∧
      (p.accept id entry counters).verifyCounter = p.verifyCounter := by
  rw [accept]
  split <;> exact ⟨rfl, rfl⟩

theorem accept_directory (p : Process) (id : Nat) (entry : KeyEntry) (counters : Counters) :
    (p.accept id entry counters).directory = p.directory ∨
      ∃ c, (p.accept id entry counters).directory = p.directory.write entry.id c := by
  rw [accept]
  split
  · exact .inr ⟨counters, rfl⟩
  · exact .inl rfl

/-- The check of a compressed message against a linked entry, with verification on. -/
theorem countCompressed_eq {counters : Counters} (verifying : p.verifyCounter = true)
    (linked : p.directory.inode entry.id = entry.inode) : p.countCompressed id entry counters =
      if counters.Exceeds entry.counters then (.valid, p.accept id entry counters)
      else (if counters.globalCount = entry.counters.globalCount then .rids else .encKey, p) := by
  have unchanged : (if p.recvFlush ≤ p.rcvCount then p.reloadCounter id entry else (p, entry)) =
      (p, entry) := by
    rw [reloadCounter_eq linked, ite_self]
  rw [countCompressed, if_pos verifying, unchanged]
  simp only
  split
  · rfl
  · split <;> rfl

/-- An old message leaves the entry as it is or raises its counters. -/
theorem countOld_cases {counters : Counters} {rest : Text} (verifying : p.verifyCounter = true) :
    (p.countOld id entry counters rest).2.2 = p ∨ counters.Exceeds entry.counters ∧
      (p.countOld id entry counters rest).2.2 =
        p.setEntry id { entry with counters := counters } := by
  rw [countOld, verifying]
  simp only [Bool.not_true, Bool.false_eq_true, if_false]
  split
  · rename_i exceeds
    refine .inr ⟨exceeds, ?_⟩
    split <;> rfl
  · exact .inl rfl

theorem readStep (linked : p.Linked) (verifying : p.verifyCounter = true)
    (ran : p.readSecMSG crypto id buffer = some (verdict, output, p')) :
    ∃ entry entry', ReadStep crypto p id buffer verdict p' entry entry' := by
  rw [readSecMSG, Option.map_eq_some_iff] at ran
  obtain ⟨entry, found, ran⟩ := ran
  refine ⟨entry, ?_⟩
  have link := (linked entry (mem_of_getElem? found)).2
  have still := entry.counters.not_exceeds_self
  set named : KeyEntry := { entry with method := (cryptoToken buffer).1 } with named_def
  simp only at ran
  split at ran
  · rename_i failed
    cases ran
    refine ⟨named, found, ⟨rfl, rfl, rfl⟩, rfl, rfl, .inl rfl, still, ?_⟩
    rw [incoming_eq found]
    simp [show decode crypto entry.key buffer = _ from failed]
  · rename_i counters rest old
    have unseen : p.incoming crypto id buffer = none := by
      rw [incoming_eq found]
      simp [show decode crypto entry.key buffer = _ from old]
    have after : p' = p.setEntry id named ∨ counters.Exceeds named.counters ∧
        p' = (p.setEntry id named).setEntry id { named with counters := counters } := by
      have cases : ((p.setEntry id named).countOld id named counters rest).2.2 = _ ∨ _ :=
        countOld_cases verifying
      rwa [ran] at cases
    rcases after with rfl | ⟨exceeds, rfl⟩
    · exact ⟨named, found, ⟨rfl, rfl, rfl⟩, rfl, rfl, .inl rfl, still, by simp [unseen]⟩
    · exact ⟨{ named with counters := counters }, found, ⟨rfl, rfl, rfl⟩, set_set .., rfl, .inl rfl,
        Counters.not_exceeds_of_exceeds exceeds, by simp [unseen]⟩
  · rename_i counters payload compressed
    have seen : p.incoming crypto id buffer = some (entry, counters) := by
      rw [incoming_eq found]
      simp [show decode crypto entry.key buffer = _ from compressed]
    have check : (p.setEntry id named).countCompressed id named counters = _ :=
      countCompressed_eq verifying link
    obtain ⟨rfl, _, rfl⟩ := Prod.mk.inj ran |>.imp_right Prod.mk.inj
    rw [check]
    have same : ∀ e c, p.incoming crypto id buffer = some (e, c) → e = entry ∧ c = counters := by
      intro e c incoming
      rw [seen] at incoming
      cases incoming
      exact ⟨rfl, rfl⟩
    by_cases exceeds : counters.Exceeds named.counters
    · rw [if_pos exceeds]
      obtain ⟨entries, verify⟩ := (p.setEntry id named).accept_entries id named counters
      refine ⟨{ named with counters := counters }, found, ⟨rfl, rfl, rfl⟩, ?_, verify, ?_,
        Counters.not_exceeds_of_exceeds exceeds, ?_⟩
      · rw [entries]
        exact set_set ..
      · exact (p.setEntry id named).accept_directory id named counters
      · intro e c incoming
        obtain ⟨rfl, rfl⟩ := same e c incoming
        exact ⟨rfl, by rw [if_pos exceeds]; exact ⟨rfl, rfl⟩⟩
    · rw [if_neg exceeds]
      refine ⟨named, found, ⟨rfl, rfl, rfl⟩, rfl, rfl, .inl rfl, still, ?_⟩
      intro e c incoming
      obtain ⟨rfl, rfl⟩ := same e c incoming
      exact ⟨rfl, by rw [if_neg exceeds]⟩

end Process

theorem KeyEntry.started_spec (entry : KeyEntry) (d : Directory) : (entry.started d).id = entry.id ∧
    (entry.started d).inode = (d.opened entry.id).inode entry.id ∧
    ∀ file, d.files entry.id = some file →
      (entry.started d).counters = readCounters file.content := by
  unfold KeyEntry.started
  split
  · rename_i file there
    have same : (d.opened entry.id).files entry.id = d.files entry.id :=
      Directory.files_opened_of_isSome (by rw [there]; rfl)
    refine ⟨rfl, ?_, ?_⟩
    · rw [Directory.inode, same, there]
      rfl
    · intro other also
      rw [there] at also
      cases also
      rfl
  · rename_i missing
    exact ⟨rfl, rfl, by simp [missing]⟩

/-- What `OS_StartCounter` leaves: the files that were there, and entries linked to their files with
the counters these hold. -/
theorem startEntries_spec (d : Directory) (entries : List KeyEntry) :
    (startEntries d entries).2.map KeyEntry.id = entries.map KeyEntry.id ∧
    (∀ name, (d.files name).isSome → (startEntries d entries).1.files name = d.files name) ∧
    (∀ entry ∈ (startEntries d entries).2, ((startEntries d entries).1.files entry.id).isSome ∧
        (startEntries d entries).1.inode entry.id = entry.inode ∧
        ∀ file, d.files entry.id = some file → entry.counters = readCounters file.content) := by
  induction entries generalizing d with
  | nil => exact ⟨rfl, fun _ _ => rfl, by simp [startEntries]⟩
  | cons first rest ih =>
    obtain ⟨ids, files, entries⟩ := ih (d.opened first.id)
    obtain ⟨name, inode, counters⟩ := first.started_spec d
    have kept {other : Text} (h : (d.files other).isSome) :
        (d.opened first.id).files other = d.files other := Directory.files_opened_of_isSome h
    refine ⟨?_, ?_, ?_⟩
    · simp [startEntries, ids, name]
    · intro other h
      exact (files other (kept h ▸ h)).trans (kept h)
    · intro entry member
      rcases mem_cons.mp member with rfl | later
      · have stays := files first.id (d.isSome_opened first.id)
        rw [name, inode, Directory.inode, Directory.inode, startEntries, stays]
        exact ⟨d.isSome_opened first.id, rfl, counters⟩
      · obtain ⟨there, linked, read⟩ := entries entry later
        refine ⟨there, linked, fun file h => read file ?_⟩
        rw [kept (by rw [h]; rfl), h]

theorem Process.updateKeys_spec (p : Process) (entries : List KeyEntry) :
    (p.updateKeys entries).entries.map KeyEntry.id = entries.map KeyEntry.id ∧
    (p.updateKeys entries).Linked ∧ (p.updateKeys entries).verifyCounter = p.verifyCounter ∧
    ∀ entry ∈ (p.updateKeys entries).entries, ∀ file,
      p.directory.files entry.id = some file → entry.counters = readCounters file.content := by
  obtain ⟨ids, _, linked⟩ := startEntries_spec p.directory (readKeys entries)
  refine ⟨?_, ?_, rfl, fun entry member => (linked entry member).2.2⟩
  · refine Eq.trans ids ?_
    rw [readKeys, map_map]
    rfl
  · intro entry member
    obtain ⟨there, inode, _⟩ := linked entry member
    obtain ⟨stays, same⟩ := Directory.inode_opened there
    exact ⟨stays, same.trans inode⟩

/-- Two places of a value that a list has at most once. -/
theorem index_unique {l : List Text} {a : Text} (once : l.count a ≤ 1) {i j : Nat}
    (first : l[i]? = some a) (second : l[j]? = some a) : i = j := by
  induction l generalizing i j with
  | nil => simp at first
  | cons b l ih =>
    rw [count_cons] at once
    cases i with
    | zero =>
      cases j with
      | zero => rfl
      | succ j =>
        obtain rfl : b = a := by simpa using first
        have again := count_pos_iff.mpr (mem_of_getElem? (l := l) second)
        simp at once
        omega
    | succ i =>
      cases j with
      | zero =>
        obtain rfl : b = a := by simpa using second
        have again := count_pos_iff.mpr (mem_of_getElem? (l := l) first)
        simp at once
        omega
      | succ j => rw [ih (by omega) first second]

/-- What a run keeps: the agent has one entry, every entry is linked to its file, no accepted message
of the agent exceeds the counters in memory, and none was replayed. -/
structure Guarded (agent : Text) (r : Receiver) : Prop where
  verify : r.process.verifyCounter = true
  one : (r.process.entries.map KeyEntry.id).count agent = 1
  linked : r.process.Linked
  bound : ∀ reading ∈ r.readings, reading.agent = agent → reading.verdict = .valid →
    ∀ entry ∈ r.process.entries, entry.id = agent → ¬reading.counters.Exceeds entry.counters
  free : ReplayFree agent r.readings

namespace Guarded

variable {agent : Text} {crypto : Crypto} {r r' : Receiver}

/-- A reload that is timely leaves the counters of the agent as they are. -/
theorem updateKeys (guarded : Guarded agent r) {entries : List KeyEntry}
    (keeps : hasAgent agent entries = true)
    (met : timely crypto agent r.process (.updateKeys entries) = true) :
    Guarded agent ⟨r.process.updateKeys entries, r.readings⟩ := by
  obtain ⟨ids, linked, verify, counters⟩ := r.process.updateKeys_spec entries
  refine ⟨verify.trans guarded.verify, ?_, linked, ?_, guarded.free⟩
  · rw [ids]
    exact beq_iff_eq.mp keeps
  · intro reading member ours valid entry loaded named
    obtain ⟨old, there, same⟩ : ∃ old ∈ r.process.entries, old.id = agent := by
      have present := count_pos_iff.mp (guarded.one ▸ Nat.one_pos)
      simpa using present
    have below := guarded.bound reading member ours valid old there same
    have stored := all_eq_true.mp met old there
    simp only [same, bne_self_eq_false, Bool.false_or, Option.any_eq_true, beq_iff_eq] at stored
    obtain ⟨file, found, read⟩ := stored
    rw [counters entry loaded file (named ▸ found), read]
    exact below

variable {p p' : Process} {id : Nat} {buffer : Text} {verdict : Verdict}
  {entry entry' other : KeyEntry}

/-- After a read the entries are those before, with one changed. -/
theorem mem_after (step : p.ReadStep crypto id buffer verdict p' entry entry')
    (member : other ∈ p'.entries) : other = entry' ∨ other ∈ p.entries ∧
      ∃ j, j ≠ id ∧ p.entries[j]? = some other := by
  rw [step.entries] at member
  obtain ⟨j, at_⟩ := mem_iff_getElem?.mp member
  rw [getElem?_set] at at_
  split at at_
  · split at at_
    · exact .inl (Option.some.inj at_).symm
    · cases at_
  · rename_i apart
    exact .inr ⟨mem_of_getElem? at_, j, fun same => apart same.symm, at_⟩

theorem linked_read (step : p.ReadStep crypto id buffer verdict p' entry entry')
    (linked : p.Linked) : p'.Linked := by
  have files {name : Text} (h : (p.directory.files name).isSome) :
      (p'.directory.files name).isSome ∧ p'.directory.inode name = p.directory.inode name := by
    rcases step.directory with same | ⟨c, written⟩
    · rw [same]
      exact ⟨h, rfl⟩
    · rw [written]
      exact Directory.inode_write h
  intro other member
  rcases mem_after step member with rfl | ⟨old, _⟩
  · obtain ⟨there, inode⟩ := linked entry (mem_of_getElem? step.found)
    rw [step.same.1, step.same.2.1]
    exact ⟨(files there).1, (files there).2.trans inode⟩
  · obtain ⟨there, inode⟩ := linked other old
    exact ⟨(files there).1, (files there).2.trans inode⟩

theorem ids_read (step : p.ReadStep crypto id buffer verdict p' entry entry') :
    p'.entries.map KeyEntry.id = p.entries.map KeyEntry.id := by
  obtain ⟨inside, rfl⟩ := List.getElem?_eq_some_iff.mp step.found
  rw [step.entries, map_set, step.same.1, ← map_set, set_getElem_self]

theorem read (guarded : Guarded agent r)
    (met : timely crypto agent r.process (.read id buffer) = true)
    (moved : r.step crypto (.read id buffer) = some r') : Guarded agent r' := by
  obtain ⟨⟨verdict, output, p'⟩, ran, rfl⟩ := Option.map_eq_some_iff.mp moved
  obtain ⟨entry, entry', step⟩ := Process.readStep guarded.linked guarded.verify ran
  have member := mem_of_getElem? step.found
  -- The agent's entry after the read, when it is the one that was read.
  have ours (named : entry.id = agent) {other : KeyEntry} (there : other ∈ p'.entries)
      (same : other.id = agent) : other = entry' := by
    rcases mem_after step there with rfl | ⟨_, j, apart, at_⟩
    · rfl
    · refine absurd (index_unique guarded.one.le ?_ ?_) apart
      · rw [getElem?_map, at_, Option.map_some, same]
      · rw [getElem?_map, step.found, Option.map_some, named]
  refine ⟨step.verify.trans guarded.verify, by rw [ids_read step]; exact guarded.one,
    linked_read step guarded.linked, ?_, ?_⟩
  · intro reading read agents valid other there named
    rcases mem_append.mp read with earlier | now
    · rcases mem_after step there with rfl | ⟨old, _⟩
      · have before := guarded.bound reading earlier agents valid entry member
          (step.same.1.symm.trans named)
        exact Counters.not_exceeds_trans before step.grown
      · exact guarded.bound reading earlier agents valid other old named
    · obtain ⟨⟨e, counters⟩, incoming, rfl⟩ : ∃ pair, r.process.incoming crypto id buffer =
          some pair ∧ reading = ⟨pair.1.id, pair.2, verdict⟩ := by
        simpa [eq_comm] using now
      obtain ⟨rfl, check⟩ := step.checked e counters incoming
      obtain rfl := ours agents there named
      split at check
      · rw [check.2]
        exact counters.not_exceeds_self
      · exact absurd (check.symm.trans valid) (by split <;> decide)
  · refine pairwise_append.mpr ⟨guarded.free, ?_, ?_⟩
    · cases r.process.incoming crypto id buffer <;> simp
    · intro earlier read later now agents agents' valid behind
      obtain ⟨⟨e, counters⟩, incoming, rfl⟩ : ∃ pair, r.process.incoming crypto id buffer =
          some pair ∧ later = ⟨pair.1.id, pair.2, verdict⟩ := by
        simpa [eq_comm] using now
      obtain ⟨rfl, check⟩ := step.checked e counters incoming
      have before := guarded.bound earlier read agents valid e member agents'
      have stale : ¬counters.Exceeds e.counters := Counters.not_exceeds_trans behind before
      have ahead : e.counters.globalCount ≤ counters.globalCount := by
        simpa [timely, incoming, show e.id = agent from agents'] using met
      rw [if_neg stale] at check
      have level : counters.globalCount = e.counters.globalCount := by
        unfold Counters.Exceeds at stale
        omega
      exact check.trans (if_pos level)

end Guarded

/-- The steps that the condition allows. -/
def Timely (crypto : Crypto) (agent : Text) (r : Receiver) (act : Act) : Prop :=
  keepsAgent agent act = true ∧ timely crypto agent r.process act = true

/-- **Replay protection.** With verification on, from the moment the keys are loaded, no run whose
reloads keep the agent and whose steps are timely accepts a message of the agent again. -/
theorem replay_refused (crypto : Crypto) (agent : Text) (p : Process) (entries : List KeyEntry)
    (verifying : p.verifyCounter = true) (present : hasAgent agent entries = true)
    {acts : List Act} {r : Receiver}
    (run : Steps (Meeting (Timely crypto agent) fun r act r' => r.step crypto act = some r')
      ⟨p.updateKeys entries, []⟩ acts r) : ReplayFree agent r.readings := by
  obtain ⟨ids, linked, verify, _⟩ := p.updateKeys_spec entries
  have start : Guarded agent ⟨p.updateKeys entries, []⟩ :=
    ⟨verify.trans verifying, by rw [ids]; exact beq_iff_eq.mp present, linked, by simp, .nil⟩
  refine Guarded.free (run.invariant ?_ start)
  intro r act r' ⟨met, moved⟩ guarded
  cases act with
  | read id buffer => exact guarded.read met.2 moved
  | updateKeys entries =>
    cases moved
    exact guarded.updateKeys met.1 met.2

/-- Ciphers that do nothing, a block marked with its length, and a constant checksum. -/
def Crypto.plain : Crypto where
  blowfishEncrypt _ text := text
  blowfishDecrypt _ text := text
  aesEncrypt _ text := 'a' :: text
  aesDecrypt _ text := some text.tail
  deflate text := decimal text.length ++ ';' :: text
  inflate text := (scanInt text).map fun (length, rest) => (rest.drop 1).take length.toNat
  md5 _ := List.replicate 32 '0'

def sampleEntry : KeyEntry where
  id := "001".toList
  key := "k".toList
  singleHost := true
  method := .blowfish
  counters := ⟨0, 0⟩
  inode := 0
  digits := List.all_eq_true.mp (by decide)
  short := by decide

/-- A process that has stored nothing yet and flushes after 128 messages. -/
def sampleProcess : Process where
  entries := []
  directory := ⟨fun _ => none, 1⟩
  senderCounters := ⟨0, 0⟩
  senderInode := 0
  rcvCount := 0
  recvFlush := 128
  verifyCounter := true

def sampleMessage (globalCount localCount : Nat) : Text :=
  (encode .plain .blowfish "k".toList 7 ⟨globalCount, localCount⟩ "hello".toList).getD []

def sampleStart : Receiver := ⟨sampleProcess.updateKeys [sampleEntry], []⟩

theorem replay_refused_again : ∃ r,
    Steps (Meeting (Timely .plain "001".toList) fun r act r' => r.step .plain act = some r')
      sampleStart [.read 0 (sampleMessage 0 5), .read 0 (sampleMessage 0 5)] r ∧
    r.readings.map Reading.verdict = [.valid, .rids] ∧ ReplayFree "001".toList r.readings := by
  have ran : (executeChecked
      (fun r act => keepsAgent "001".toList act && timely .plain "001".toList r.process act)
      (Receiver.step .plain) sampleStart
      [.read 0 (sampleMessage 0 5), .read 0 (sampleMessage 0 5)]).map
      (fun r => r.readings.map Reading.verdict) = some [.valid, .rids] := by decide +kernel
  obtain ⟨r, ran, verdicts⟩ := Option.map_eq_some_iff.mp ran
  have run : Steps (Meeting (Timely .plain "001".toList) _) _ _ r :=
    Steps.of_executeChecked (fun met => Bool.and_eq_true_iff.mp met) ran
  exact ⟨r, run, verdicts,
    replay_refused .plain "001".toList sampleProcess [sampleEntry] rfl (by decide) run⟩

/-- A run whose second reading does not exceed the first, and is not answered with `KS_RIDS`. -/
theorem not_replayFree {acts : List Act} (first second : Counters) (verdict : Verdict)
    (ran : (execute (Receiver.step .plain) sampleStart acts).map Receiver.readings =
      some [⟨"001".toList, first, .valid⟩, ⟨"001".toList, second, verdict⟩])
    (behind : ¬second.Exceeds first) (answer : verdict ≠ .rids) :
    ∃ r, Steps (fun r act r' => r.step .plain act = some r') sampleStart acts r ∧
      ¬ReplayFree "001".toList r.readings := by
  obtain ⟨r, ran, readings⟩ := Option.map_eq_some_iff.mp ran
  refine ⟨r, Steps.of_execute ran, fun free => ?_⟩
  rw [readings, ReplayFree, pairwise_pair] at free
  exact answer (free rfl rfl rfl behind)

/-- A message is accepted again after a reload that finds nothing in the agent's file; and one with a
lower global count is not answered with `KS_RIDS`. -/
theorem replay_accepted_or_misnamed :
    (∃ r, Steps (fun r act r' => r.step .plain act = some r') sampleStart
      [.read 0 (sampleMessage 0 5), .updateKeys [sampleEntry], .read 0 (sampleMessage 0 5)] r ∧
      ¬ReplayFree "001".toList r.readings) ∧
    ∃ r, Steps (fun r act r' => r.step .plain act = some r') sampleStart
      [.read 0 (sampleMessage 3 1), .read 0 (sampleMessage 2 9)] r ∧
      ¬ReplayFree "001".toList r.readings := by
  constructor
  · exact not_replayFree ⟨0, 5⟩ ⟨0, 5⟩ .valid (by decide +kernel) (by decide) (by decide)
  · exact not_replayFree ⟨3, 1⟩ ⟨2, 9⟩ .encKey (by decide +kernel) (by decide) (by decide)

end GuardSarm.Remote
