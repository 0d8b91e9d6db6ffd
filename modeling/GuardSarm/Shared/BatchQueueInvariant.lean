import GuardSarm.Shared.BatchQueue

/-!
# The invariant of the batch queue

`Kept s l`: the items and their count, the slots, and the pointers of the ring. The lemmas say what
the parts of a step do to each of them.
-/

namespace GuardSarm.BatchQueue

open List Option

section Lists

variable {α : Type} {l : List α} {i : Nat} {e : α}

theorem perm_eraseIdx (found : l[i]? = some e) : l.Perm (e :: l.eraseIdx i) := by
  obtain ⟨bound, rfl⟩ := List.getElem?_eq_some_iff.1 found
  exact (getElem_cons_eraseIdx_perm bound).symm

theorem perm_set (found : l[i]? = some e) (e' : α) : (l.set i e').Perm (e' :: l.eraseIdx i) := by
  obtain ⟨bound, -⟩ := List.getElem?_eq_some_iff.1 found
  exact set_perm_cons_eraseIdx bound e'

theorem apart_of_nodup {β : Type} {f : α → β} {xs ys : List α}
    (distinct : ((xs ++ e :: ys).map f).Nodup) : ∀ other ∈ xs ++ ys, f other ≠ f e := by
  rw [(perm_middle.map f).nodup_iff, map_cons, nodup_cons] at distinct
  intro other member same
  exact distinct.1 (same ▸ mem_map_of_mem member)

theorem mem_middle {a : α} {xs ys : List α} : a ∈ xs ++ e :: ys ↔ a = e ∨ a ∈ xs ++ ys := by
  rw [perm_middle.mem_iff, mem_cons]

/-- Taking another element out does not move an element back. -/
theorem idxOf_erase_le [DecidableEq α] {a b : α} (apart : a ≠ b) :
    ∀ l : List α, (l.erase b).idxOf a ≤ l.idxOf a := by
  intro l
  induction l with
  | nil => exact le_refl _
  | cons c l ih =>
    by_cases taken : c = b
    · subst taken
      rw [erase_cons_head, idxOf_cons_ne _ apart.symm]
      exact Nat.le_succ _
    · rw [erase_cons_tail (by simpa using taken)]
      by_cases here : c = a
      · subst here
        simp
      · rw [idxOf_cons_ne _ here, idxOf_cons_ne _ here]
        exact Nat.succ_le_succ ih

end Lists

variable {Key Data : Type}

/-! ## The slots of the index -/

theorem mem_split_addr {index : List (Slot Key Data)} {slot : Slot Key Data}
    (inside : slot ∈ index) (distinct : (index.map (·.addr)).Nodup) :
    ∃ xs ys, index = xs ++ slot :: ys ∧
      (∀ queue, setQueue index slot.addr queue = xs ++ { slot with queue } :: ys) ∧
      index.eraseP (fun other => decide (other.addr = slot.addr)) = xs ++ ys := by
  obtain ⟨xs, ys, rfl⟩ := mem_iff_append.1 inside
  obtain ⟨before, after⟩ := forall_mem_append.1 (apart_of_nodup distinct)
  refine ⟨xs, ys, rfl, ?_, ?_⟩
  · intro queue
    have same : ∀ zs : List (Slot Key Data), (∀ other ∈ zs, ¬ other.addr = slot.addr) →
        setQueue zs slot.addr queue = zs := by
      intro zs apart
      refine (map_congr_left fun other member => ?_).trans (map_id zs)
      rw [if_neg (apart other member)]
      rfl
    have split : setQueue (xs ++ slot :: ys) slot.addr queue =
        setQueue xs slot.addr queue ++ { slot with queue } :: setQueue ys slot.addr queue := by
      simp [setQueue]
    rw [split, same xs before, same ys after]
  · rw [eraseP_append_right _ (by simpa using before), eraseP_cons_of_pos (by simp)]

/-- Where a slot stands with respect to the ring: with an empty queue outside it, with items in it,
or with items, outside it and awaiting its ring update. -/
inductive Placed (queue : List (Item Key Data)) (pending : Nat) (inside : Prop) : Prop
  | idle : queue = [] → pending = 0 → ¬ inside → Placed queue pending inside
  | active : queue ≠ [] → pending = 0 → inside → Placed queue pending inside
  | awaiting : queue ≠ [] → pending = 1 → ¬ inside → Placed queue pending inside

variable [DecidableEq Key]

def pendingAt (enqueues : List (Enqueue Key Data)) (slot : Slot Key Data) : Nat :=
  enqueues.countP fun enqueue => decide (enqueue.target? = some (slot.key, slot.addr))

/-- The slots, the ring and the enqueues that will touch it. -/
structure Live (index : List (Slot Key Data)) (enqueues : List (Enqueue Key Data))
    (drops : List (Drop Key Data)) (l : List Nat) : Prop where
  addresses : (index.map (·.addr) ++ drops.map (·.slot)).Nodup
  keys : (index.map (·.key)).Nodup
  ring : ∀ a ∈ l, ∃ slot ∈ index, slot.addr = a
  placed : ∀ slot ∈ index, Placed slot.queue (pendingAt enqueues slot) (slot.addr ∈ l)

/-- The items of an agent that were not dropped, in the order in which they are consumed. -/
def State.track (s : State Key Data) (key : Key) : List (Item Key Data) :=
  (s.consumed ++ s.transit ++ s.queued).filter fun item => decide (item.key = key)

structure Ledger (s : State Key Data) : Prop where
  numbered : s.accepted.map (·.seq) = List.range s.accepted.length
  once : s.everywhere.Perm s.accepted
  count : s.itemsGlobal = s.queued.length + s.inFlight
  keyed : ∀ slot ∈ s.index, ∀ item ∈ slot.queue, item.key = slot.key
  inOrder : ∀ key, ((s.track key).map (·.seq)).Pairwise (· < ·)

/-- The invariant of the scheduler, for the list of the slots in its ring. -/
structure Kept (s : State Key Data) (l : List Nat) : Prop where
  ring : RingOk s.ring l
  live : Live s.index s.enqueues s.drops l
  ledger : Ledger s

/-! ## The enqueues -/

section Pending

variable {enqueues rest : List (Enqueue Key Data)} {e : Enqueue Key Data} {slot : Slot Key Data}

theorem pendingAt_cons (same : enqueues.Perm (e :: rest)) (slot : Slot Key Data) :
    pendingAt enqueues slot =
      pendingAt rest slot + if e.target? = some (slot.key, slot.addr) then 1 else 0 := by
  rw [pendingAt, same.countP_eq, countP_cons]
  simp [pendingAt]

theorem pendingAt_eq_zero (none : .pushed slot.key slot.addr ∉ enqueues) :
    pendingAt enqueues slot = 0 := by
  rw [pendingAt, countP_eq_zero]
  intro e member
  cases e with
  | pushed key addr =>
    intro same
    obtain ⟨rfl, rfl⟩ : key = slot.key ∧ addr = slot.addr := by simpa [Enqueue.target?] using same
    exact none member
  | counted _ _ => simp [Enqueue.target?]
  | refused _ => simp [Enqueue.target?]

theorem pendingAt_pos (member : .pushed slot.key slot.addr ∈ enqueues) :
    0 < pendingAt enqueues slot :=
  List.countP_pos_iff.2 ⟨_, member, by simp [Enqueue.target?]⟩

end Pending

/-! ## What the steps do to slots and ring -/

namespace Live

variable {index : List (Slot Key Data)} {enqueues enqueues' : List (Enqueue Key Data)}
  {drops drops' : List (Drop Key Data)} {l l' : List Nat} {slot : Slot Key Data}

section

variable (live : Live index enqueues drops l)
include live

theorem distinct : (index.map (·.addr)).Nodup :=
  (List.nodup_append.1 live.addresses).1

theorem addr_inj {other : Slot Key Data}
    (one : slot ∈ index) (two : other ∈ index) (same : slot.addr = other.addr) : slot = other :=
  List.inj_on_of_nodup_map live.distinct one two same

/-- The enqueues in progress change and the pending ring updates do not. -/
theorem reenqueue (counts : ∀ slot ∈ index, pendingAt enqueues' slot = pendingAt enqueues slot) :
    Live index enqueues' drops l := by
  refine ⟨live.addresses, live.keys, live.ring, ?_⟩
  intro slot member
  rw [counts slot member]
  exact live.placed slot member

theorem redrop
    (fewer : (drops'.map (·.slot)).Sublist (drops.map (·.slot))) : Live index enqueues drops' l :=
  ⟨live.addresses.sublist (List.Sublist.append_left fewer _), live.keys, live.ring, live.placed⟩

theorem addSlot {addr : Nat} {key : Key}
    (unused : addr ∉ index.map (·.addr) ++ drops.map (·.slot))
    (unknown : key ∉ index.map (·.key)) (fresh : .pushed key addr ∉ enqueues) :
    Live (index ++ [⟨addr, key, []⟩]) enqueues drops l := by
  rw [mem_append, not_or] at unused
  have outside : addr ∉ l := by
    intro inside
    obtain ⟨slot, member, rfl⟩ := live.ring addr inside
    exact unused.1 (mem_map_of_mem member)
  refine ⟨?_, ?_, ?_, ?_⟩
  · have moved : ((index ++ [(⟨addr, key, []⟩ : Slot Key Data)]).map (·.addr) ++
        drops.map (·.slot)).Perm (addr :: (index.map (·.addr) ++ drops.map (·.slot))) := by
      simp
    rw [moved.nodup_iff, nodup_cons, mem_append, not_or]
    exact ⟨unused, live.addresses⟩
  · have moved : ((index ++ [(⟨addr, key, []⟩ : Slot Key Data)]).map (·.key)).Perm
        (key :: index.map (·.key)) := by
      simp
    rw [moved.nodup_iff, nodup_cons]
    exact ⟨unknown, live.keys⟩
  · intro a inside
    obtain ⟨slot, member, same⟩ := live.ring a inside
    exact ⟨slot, mem_append_left _ member, same⟩
  · intro slot member
    cases mem_append.1 member with
    | inl old => exact live.placed slot old
    | inr new =>
      rw [mem_singleton.1 new]
      exact .idle rfl (pendingAt_eq_zero fresh) outside

end

/-- The queue of one slot, its pending ring updates and its place in the ring change. -/
theorem setQueue {xs ys : List (Slot Key Data)} {queue : List (Item Key Data)}
    (live : Live (xs ++ slot :: ys) enqueues drops l)
    (here : Placed queue (pendingAt enqueues' slot) (slot.addr ∈ l'))
    (counts : ∀ other, other.addr ≠ slot.addr → pendingAt enqueues' other = pendingAt enqueues other)
    (members : ∀ a, a ≠ slot.addr → (a ∈ l' ↔ a ∈ l)) :
    Live (xs ++ { slot with queue } :: ys) enqueues' drops l' := by
  have addrs : (xs ++ { slot with queue } :: ys).map (·.addr) = (xs ++ slot :: ys).map (·.addr) := by
    simp
  have keys : (xs ++ { slot with queue } :: ys).map (·.key) = (xs ++ slot :: ys).map (·.key) := by
    simp
  have others : ∀ other ∈ xs ++ { slot with queue } :: ys, other = { slot with queue } ∨
      (other ∈ xs ++ slot :: ys ∧ other.addr ≠ slot.addr) := by
    intro other member
    refine (mem_middle.1 member).imp_right fun old => ?_
    exact ⟨mem_middle.2 (.inr old), apart_of_nodup live.distinct other old⟩
  refine ⟨?_, ?_, ?_, ?_⟩
  · rw [addrs]
    exact live.addresses
  · rw [keys]
    exact live.keys
  · intro a member
    by_cases same : a = slot.addr
    · exact ⟨{ slot with queue }, by simp, same.symm⟩
    · obtain ⟨other, old, rfl⟩ := live.ring a ((members a same).1 member)
      have rest := (mem_middle.1 old).resolve_left fun here => same (congrArg (·.addr) here)
      exact ⟨other, mem_middle.2 (.inr rest), rfl⟩
  · intro other member
    rcases others other member with rfl | ⟨old, apart⟩
    · exact here
    · have place := live.placed other old
      rwa [← counts _ apart, ← propext (members _ apart)] at place

theorem dropSlot {xs ys : List (Slot Key Data)} (live : Live (xs ++ slot :: ys) enqueues drops l)
    (distinct : l.Nodup) (chain : List (Item Key Data)) (count : Option Nat) :
    Live (xs ++ ys) enqueues (drops ++ [⟨slot.addr, chain, count⟩]) (l.erase slot.addr) := by
  have sub : (xs ++ ys).Sublist (xs ++ slot :: ys) :=
    List.Sublist.append_left (sublist_cons_self slot ys) _
  refine ⟨?_, live.keys.sublist (sub.map _), ?_, ?_⟩
  · have moved : ((xs ++ ys).map (·.addr) ++
        (drops ++ [(⟨slot.addr, chain, count⟩ : Drop Key Data)]).map (·.slot)).Perm
        ((xs ++ slot :: ys).map (·.addr) ++ drops.map (·.slot)) := by
      rw [perm_iff_count]
      simp only [map_append, map_cons, map_nil, count_append, count_cons,
        count_nil]
      omega
    rw [moved.nodup_iff]
    exact live.addresses
  · intro a member
    rw [distinct.mem_erase_iff] at member
    obtain ⟨other, old, rfl⟩ := live.ring a member.2
    have rest := (mem_middle.1 old).resolve_left fun here => member.1 (congrArg (·.addr) here)
    exact ⟨other, rest, rfl⟩
  · intro other member
    have place := live.placed other (sub.subset member)
    have same : other.addr ∈ l.erase slot.addr ↔ other.addr ∈ l := by
      rw [distinct.mem_erase_iff]
      exact and_iff_right (apart_of_nodup live.distinct other member)
    rwa [← propext same] at place

end Live

/-! ## What the steps do to the items -/

section Items

variable {s t : State Key Data} {slot : Slot Key Data}
  {xs ys : List (Slot Key Data)}

theorem Ledger.below (ledger : Ledger s) {item : Item Key Data} (member : item ∈ s.everywhere) :
    item.seq < s.accepted.length := by
  have known : item.seq ∈ s.accepted.map (·.seq) :=
    mem_map_of_mem (ledger.once.subset member)
  rw [ledger.numbered] at known
  exact mem_range.1 known

/-- Steps that change no queue and keep the items of the consumer in line. -/
theorem Ledger.move (ledger : Ledger s) (index : t.index = s.index)
    (accepted : t.accepted = s.accepted) (line : t.consumed ++ t.transit = s.consumed ++ s.transit)
    (rest : (t.disposed ++ t.dropping).Perm (s.disposed ++ s.dropping))
    (count : t.itemsGlobal + s.inFlight = s.itemsGlobal + t.inFlight) : Ledger t := by
  have queued : t.queued = s.queued := by rw [State.queued, State.queued, index]
  refine ⟨accepted ▸ ledger.numbered, ?_, ?_, ?_, ?_⟩
  · have items : t.everywhere.Perm s.everywhere := by
      rw [State.everywhere, State.everywhere, queued, line, append_assoc _ t.disposed,
        append_assoc _ s.disposed]
      exact (rest.append_left _).append_right _
    rw [accepted]
    exact items.trans ledger.once
  · have before := ledger.count
    rw [queued]
    omega
  · rw [index]
    exact ledger.keyed
  · intro key
    have same : t.track key = s.track key := by rw [State.track, State.track, line, queued]
    rw [same]
    exact ledger.inOrder key

theorem filter_own {queue : List (Item Key Data)} {owner : Key}
    (own : ∀ item ∈ queue, item.key = owner) (key : Key) :
    queue.filter (fun item => decide (item.key = key)) = if key = owner then queue else [] := by
  split
  · rename_i same
    simpa [filter_eq_self, same] using own
  · rename_i other
    simp only [filter_eq_nil_iff, decide_eq_true_eq]
    intro item member same
    exact other (same.symm.trans (own item member))

/-- The items of an agent are those in the queue of its slot. -/
theorem filter_queues {queue : List (Item Key Data)}
    (keys : ((xs ++ slot :: ys).map (·.key)).Nodup)
    (keyed : ∀ other ∈ xs ++ slot :: ys, ∀ item ∈ other.queue, item.key = other.key)
    (own : ∀ item ∈ queue, item.key = slot.key) (key : Key) :
    ((xs ++ { slot with queue } :: ys).flatMap (·.queue)).filter (fun item => decide (item.key = key)) =
      if key = slot.key then queue
      else ((xs ++ ys).flatMap (·.queue)).filter fun item => decide (item.key = key) := by
  have apart := apart_of_nodup keys
  simp only [flatMap_append, flatMap_cons, filter_append, filter_own own]
  split
  · rename_i same
    have others : ∀ zs ⊆ xs ++ ys,
        (zs.flatMap (·.queue)).filter (fun item => decide (item.key = key)) = [] := by
      intro zs sub
      simp only [filter_eq_nil_iff, mem_flatMap, decide_eq_true_eq]
      rintro item ⟨other, member, inside⟩ found
      have known := keyed other (by grind) item inside
      exact apart other (sub member) (known.symm.trans (found.trans same))
    rw [others xs (by simp), others ys (by simp), nil_append, append_nil]
  · rw [nil_append]

theorem State.track_of (keys : (s.index.map (·.key)).Nodup) (ledger : Ledger s)
    (split : s.index = xs ++ slot :: ys) (key : Key) :
    s.track key = (s.consumed ++ s.transit).filter (fun item => decide (item.key = key)) ++
      if key = slot.key then slot.queue
      else ((xs ++ ys).flatMap (·.queue)).filter fun item => decide (item.key = key) := by
  have keyed := ledger.keyed
  rw [split] at keys keyed
  rw [State.track, filter_append, State.queued, split]
  exact congrArg _ (filter_queues keys keyed (keyed slot (by simp)) key)

theorem Ledger.makeSlot (ledger : Ledger s) (addr : Nat) (key : Key) :
    Ledger (makeSlot s addr key) := by
  have queued : (BatchQueue.makeSlot s addr key).queued = s.queued := by
    simp [State.queued, BatchQueue.makeSlot]
  refine ⟨ledger.numbered, ?_, ?_, ?_, ?_⟩
  · rw [State.everywhere, queued]
    exact ledger.once
  · rw [queued]
    exact ledger.count
  · intro slot member
    cases mem_append.1 member with
    | inl old => exact ledger.keyed slot old
    | inr new =>
      rw [mem_singleton.1 new]
      nofun
  · intro key
    rw [State.track, queued]
    exact ledger.inOrder key

/-- An item is pushed: the item of its enqueue is now counted among the queued ones. -/
theorem Ledger.push (ledger : Ledger s) (keys : (s.index.map (·.key)).Nodup)
    (split : s.index = xs ++ slot :: ys) (data : Data) {enqueues : List (Enqueue Key Data)}
    (counted : enqueues.countP Enqueue.isCounted + 1 = s.enqueues.countP Enqueue.isCounted) :
    Ledger { s with
      index := xs ++
        { slot with queue := slot.queue ++ [⟨s.accepted.length, slot.key, data⟩] } :: ys
      accepted := s.accepted ++ [⟨s.accepted.length, slot.key, data⟩], enqueues } := by
  have keyed := ledger.keyed
  have keys' := keys
  rw [split] at keyed keys'
  have own : ∀ item ∈ slot.queue ++ [(⟨s.accepted.length, slot.key, data⟩ : Item Key Data)],
      item.key = slot.key := by
    intro item member
    cases mem_append.1 member with
    | inl old => exact keyed slot (by simp) item old
    | inr new => rw [mem_singleton.1 new]
  have before := ledger.count
  rw [State.queued, split] at before
  refine ⟨?_, ?_, ?_, ?_, ?_⟩
  · simp [ledger.numbered, range_succ]
  · have once := ledger.once
    simp only [State.everywhere, State.queued, split] at once
    refine List.Perm.trans ?_ (once.append_right _)
    classical
    rw [perm_iff_count]
    simp only [State.everywhere, State.queued, State.transit, State.dropping, flatMap_append,
      flatMap_cons, count_append]
    omega
  · simp only [State.queued, State.inFlight, flatMap_append, flatMap_cons,
      length_append, length_cons, length_nil] at before ⊢
    omega
  · intro other member item inside
    rcases mem_middle.1 member with rfl | old
    · exact own item inside
    · exact keyed other (mem_middle.2 (.inr old)) item inside
  · intro key
    have track := ledger.inOrder key
    have line := State.track_of keys ledger split key
    rw [State.track, State.queued, filter_append, filter_queues keys' keyed own]
    rw [line] at track
    by_cases same : key = slot.key
    · rw [if_pos same] at line track ⊢
      rw [← append_assoc, map_append, pairwise_append]
      refine ⟨track, pairwise_singleton _ _, ?_⟩
      intro n old m new
      obtain ⟨item, inside, rfl⟩ := mem_map.1 old
      have place : item ∈ s.everywhere := by
        have found : item ∈ s.track key := line ▸ inside
        have where' := mem_of_mem_filter found
        simp only [State.everywhere, mem_append] at where' ⊢
        tauto
      have bound := ledger.below place
      rw [map_singleton, mem_singleton] at new
      rw [new]
      exact bound
    · rw [if_neg same] at track ⊢
      exact track

/-- The queue of a slot becomes the chain of the consumer. -/
theorem Ledger.drain (ledger : Ledger s) (keys : (s.index.map (·.key)).Nodup)
    (split : s.index = xs ++ slot :: ys) (free : s.drain = none) (ring : Ring) (drained : List Key) :
    Ledger { s with
      ring, index := xs ++ { slot with queue := [] } :: ys
      drain := some ⟨slot.queue, 0⟩, drained } := by
  have keyed := ledger.keyed
  have keys' := keys
  rw [split] at keyed keys'
  have before := ledger.count
  rw [State.queued, split] at before
  refine ⟨ledger.numbered, ?_, ?_, ?_, ?_⟩
  · have once := ledger.once
    simp only [State.everywhere, State.queued, State.transit, split, free] at once
    refine List.Perm.trans ?_ once
    classical
    rw [perm_iff_count]
    simp only [State.everywhere, State.queued, State.transit, State.dropping, flatMap_append,
      flatMap_cons, count_append, map_some, getD_some, map_none,
      getD_none, count_nil]
    omega
  · simp only [State.queued, State.inFlight, free, flatMap_append, flatMap_cons,
      length_append, length_nil, map_some, getD_some, map_none,
      getD_none] at before ⊢
    omega
  · intro other member item inside
    rcases mem_middle.1 member with rfl | old
    · cases inside
    · exact keyed other (mem_middle.2 (.inr old)) item inside
  · intro key
    have track := ledger.inOrder key
    rw [State.track_of keys ledger split key] at track
    rw [State.track, State.queued, filter_append, filter_queues keys' keyed (by simp)]
    simp only [State.transit, free, map_none, getD_none, map_some,
      getD_some, append_nil] at track ⊢
    rw [filter_append, filter_own (keyed slot (by simp))]
    by_cases same : key = slot.key
    · simpa only [if_pos same, append_nil] using track
    · simpa only [if_neg same, append_nil] using track

theorem Ledger.drop (ledger : Ledger s) (split : s.index = xs ++ slot :: ys) (ring : Ring)
    (dropped : List Key) :
    Ledger { s with
      ring, index := xs ++ ys
      drops := s.drops ++ [⟨slot.addr, slot.queue, some slot.queue.length⟩], dropped } := by
  have keyed := ledger.keyed
  have before := ledger.count
  have sub : (xs ++ ys).Sublist (xs ++ slot :: ys) :=
    List.Sublist.append_left (sublist_cons_self slot ys) _
  rw [State.queued, split] at before
  rw [split] at keyed
  refine ⟨ledger.numbered, ?_, ?_, ?_, ?_⟩
  · have once := ledger.once
    simp only [State.everywhere, State.queued, State.dropping, split] at once
    refine List.Perm.trans ?_ once
    classical
    rw [perm_iff_count]
    simp only [State.everywhere, State.queued, State.transit, State.dropping, flatMap_append,
      flatMap_cons, flatMap_nil, count_append, append_nil]
    omega
  · simp only [State.queued, State.inFlight, flatMap_append, flatMap_cons,
      length_append, map_append, map_cons, map_nil, sum_append,
      sum_cons, sum_nil, getD_some] at before ⊢
    omega
  · intro other member item inside
    exact keyed other (sub.subset member) item inside
  · intro key
    have track := ledger.inOrder key
    rw [State.track, State.queued, split] at track
    refine track.sublist ((List.Sublist.filter _ ?_).map _)
    exact List.Sublist.append_left (sub.flatMap _) _

end Items

end GuardSarm.BatchQueue
