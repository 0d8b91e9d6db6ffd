import GuardSarm.Shared.BatchQueueInvariant

/-!
# Runs of the batch queue

The ring holds exactly the agents with items, once no enqueue stands between its
push and its ring update, and every accepted item is in one place, as long as no new
slot takes the address of a slot that such an enqueue still compares with. The
comparison is of pointers only: with an address used again, a late ring update
appends the new slot in place of the enqueue that filled it, the consumer drains the
slot, and the other update then appends an agent without items.
-/

namespace GuardSarm.BatchQueue

open List

variable {Key Data : Type}

/-! ## Steps -/

section Turns

variable {s t : State Key Data} {l : List Nat}

/-- The slots of the index stay, whatever their queues. -/
def SlotsStay (s t : State Key Data) : Prop :=
  ∀ slot ∈ s.index, ∃ other ∈ t.index, other.addr = slot.addr ∧ other.key = slot.key

/-- What a step logs, and how far the agents of the ring move up: an agent that is neither drained
nor dropped keeps its place or moves up by the agents drained. -/
def Turns (s : State Key Data) (l : List Nat) (t : State Key Data) (l' : List Nat) : Prop :=
  ∃ drained dropped, t.drained = s.drained ++ drained ∧ t.dropped = s.dropped ++ dropped ∧
    ∀ slot ∈ s.index, slot.addr ∈ l → slot.key ∉ dropped → slot.key ∉ drained →
      (∃ other ∈ t.index, other.addr = slot.addr ∧ other.key = slot.key) ∧ slot.addr ∈ l' ∧
        l'.idxOf slot.addr + drained.length ≤ l.idxOf slot.addr

theorem Turns.stay (drained : t.drained = s.drained) (dropped : t.dropped = s.dropped)
    (slots : SlotsStay s t) (more : List Nat) : Turns s l t (l ++ more) := by
  refine ⟨[], [], by simp [drained], by simp [dropped], ?_⟩
  intro slot member inside _ _
  refine ⟨slots slot member, mem_append_left _ inside, ?_⟩
  rw [idxOf_append_of_mem inside]
  exact le_refl _

theorem Turns.keep (drained : t.drained = s.drained) (dropped : t.dropped = s.dropped)
    (slots : SlotsStay s t) : Turns s l t l := by
  have stay := Turns.stay (l := l) drained dropped slots []
  rwa [append_nil] at stay

theorem Turns.same (drained : t.drained = s.drained) (dropped : t.dropped = s.dropped)
    (slots : t.index = s.index) : Turns s l t l :=
  .keep drained dropped fun slot member => ⟨slot, slots ▸ member, rfl, rfl⟩

theorem Turns.trans {u : State Key Data} {l' l'' : List Nat} (first : Turns s l t l')
    (second : Turns t l' u l'') : Turns s l u l'' := by
  obtain ⟨drained, dropped, drains, drops, up⟩ := first
  obtain ⟨drained', dropped', drains', drops', up'⟩ := second
  refine ⟨drained ++ drained', dropped ++ dropped', ?_, ?_, ?_⟩
  · rw [drains', drains, append_assoc]
  · rw [drops', drops, append_assoc]
  · intro slot member ahead undropped undrained
    rw [mem_append, not_or] at undropped undrained
    obtain ⟨⟨other, there, addr, key⟩, still, closer⟩ :=
      up slot member ahead undropped.1 undrained.1
    obtain ⟨⟨last, place, addr', key'⟩, finally', nearest⟩ := up' other there (addr ▸ still)
      (key ▸ undropped.2) (key ▸ undrained.2)
    rw [addr] at addr' finally' nearest
    refine ⟨⟨last, place, addr', key'.trans key⟩, finally', ?_⟩
    rw [length_append]
    omega

theorem RingOk.makeSlot (ok : RingOk s.ring l) {addr : Nat} (outside : addr ∉ l) (key : Key) :
    RingOk (makeSlot s addr key).ring l := by
  refine ⟨ok.distinct, ok.head, ok.tail, ok.cursor, ok.prevCursor, ?_, ?_, ok.count⟩
  · refine ok.links.congr ?_
    intro a inside
    have apart : a ≠ addr := fun same => outside (same ▸ inside)
    exact (Function.update_of_ne apart _ _).symm
  · intro a
    by_cases same : a = addr
    · subst same
      simp [BatchQueue.makeSlot, outside]
    · simp only [BatchQueue.makeSlot, Function.update_of_ne same]
      exact ok.member a

theorem slots_set {drops : List (Drop Key Data)} {j : Nat} {drop : Drop Key Data}
    (found : drops[j]? = some drop) (drop' : Drop Key Data) (same : drop'.slot = drop.slot) :
    ((drops.set j drop').map (·.slot)).Sublist (drops.map (·.slot)) := by
  obtain ⟨bound, rfl⟩ := List.getElem?_eq_some_iff.1 found
  have kept : (drops.map (·.slot)).set j drops[j].slot = drops.map (·.slot) := by
    rw [← map_set, set_getElem_self]
  rw [map_set, same, kept]

/-- What is left of the chains and of the counts when one drop is replaced. -/
theorem drops_set {drops : List (Drop Key Data)} {j : Nat} {drop : Drop Key Data}
    (found : drops[j]? = some drop) (drop' : Drop Key Data) : ∃ rest n,
    (drops.flatMap (·.chain)).Perm (drop.chain ++ rest) ∧
      ((drops.set j drop').flatMap (·.chain)).Perm (drop'.chain ++ rest) ∧
      (drops.map (·.count.getD 0)).sum = drop.count.getD 0 + n ∧
      ((drops.set j drop').map (·.count.getD 0)).sum = drop'.count.getD 0 + n := by
  have before := perm_eraseIdx found
  have after := perm_set found drop'
  exact ⟨(drops.eraseIdx j).flatMap (·.chain), ((drops.eraseIdx j).map (·.count.getD 0)).sum,
    before.flatMap_right _, after.flatMap_right _, (before.map _).sum_eq, (after.map _).sum_eq⟩

end Turns

section Steps

variable [DecidableEq Key] {limits : Limits} {s : State Key Data} {l : List Nat}

variable {slot : Slot Key Data} {index : List (Slot Key Data)} {key : Key}

theorem hmGet_some (found : hmGet index key = some slot) : slot ∈ index ∧ slot.key = key :=
  ⟨List.mem_of_find?_eq_some found, by simpa using List.find?_some found⟩

theorem hmGet_none (missing : hmGet index key = none) :
    key ∉ index.map (·.key) := by
  intro member
  obtain ⟨slot, inside, same⟩ := mem_map.1 member
  have apart := find?_eq_none.1 missing slot inside
  exact apart (by simpa using same)

theorem hmGet_of_mem (keys : (index.map (·.key)).Nodup)
    (inside : slot ∈ index) : hmGet index slot.key = some slot := by
  cases found : hmGet index slot.key with
  | none => exact absurd (mem_map_of_mem inside) (hmGet_none found)
  | some other =>
    obtain ⟨member, same⟩ := hmGet_some found
    rw [inj_on_of_nodup_map keys member inside same]

theorem pushItem_keeps (limits : Limits) (kept : Kept s l) (inside : slot ∈ s.index) {i : Nat}
    {data : Data} (call : s.enqueues[i]? = some (.counted slot.key data)) :
    Kept (pushItem limits s i slot data) l ∧ Turns s l (pushItem limits s i slot data) l := by
  have perm := perm_eraseIdx call
  obtain ⟨xs, ys, split, set, -⟩ := mem_split_addr inside kept.live.distinct
  have counted : (s.enqueues.eraseIdx i).countP Enqueue.isCounted + 1 =
      s.enqueues.countP Enqueue.isCounted := by
    rw [perm.countP_eq, countP_cons]
    rfl
  have pendings : ∀ a, pendingAt s.enqueues a = pendingAt (s.enqueues.eraseIdx i) a := by
    intro a
    rw [pendingAt_cons perm]
    rfl
  have live := kept.live
  unfold pushItem
  split
  · -- over the limit of the agent
    have replaced := perm_set call (.refused data)
    refine ⟨⟨kept.ring, live.reenqueue ?_, ?_⟩, .same rfl rfl rfl⟩
    · intro slot _
      rw [pendingAt_cons replaced, pendings]
      rfl
    · refine kept.ledger.move rfl rfl rfl (List.Perm.refl _) ?_
      simp only [State.inFlight, replaced.countP_eq, perm.countP_eq, countP_cons,
        Enqueue.isCounted]
  · refine ⟨⟨kept.ring, ?_, ?_⟩, .keep rfl rfl ?_⟩
    · simp only [set]
      have place := live.placed slot inside
      rw [split] at live
      split
      · rename_i empty
        have replaced := perm_set call (.pushed slot.key slot.addr)
        have queue : slot.queue = [] := eq_nil_of_length_eq_zero empty
        obtain ⟨quiet, outside⟩ : pendingAt s.enqueues slot = 0 ∧ slot.addr ∉ l := by
          cases place with
          | idle _ quiet outside => exact ⟨quiet, outside⟩
          | active filled _ _ | awaiting filled _ _ => exact absurd queue filled
        refine live.setQueue ?_ ?_ (fun a _ => Iff.rfl)
        · refine .awaiting (by simp) ?_ outside
          rw [pendingAt_cons replaced, ← pendings, quiet]
          simp [Enqueue.target?]
        · intro other apart
          rw [pendingAt_cons replaced, pendings]
          simp [Enqueue.target?, apart.symm]
      · rename_i filled
        have queue : slot.queue ≠ [] := fun empty => filled (by simp [empty])
        refine live.setQueue ?_ (fun other _ => (pendings other).symm) (fun a _ => Iff.rfl)
        rw [← pendings]
        cases place with
        | idle empty _ _ => exact absurd empty queue
        | active _ quiet inside => exact .active (by simp) quiet inside
        | awaiting _ one outside => exact .awaiting (by simp) one outside
    · simp only [set]
      refine kept.ledger.push live.keys split data ?_
      split
      · rw [(perm_set call _).countP_eq, countP_cons]
        exact counted
      · exact counted
    · intro other member
      simp only [set]
      rw [split] at member
      rcases mem_middle.1 member with rfl | old
      · exact ⟨_, mem_middle.2 (.inl rfl), rfl, rfl⟩
      · exact ⟨other, mem_middle.2 (.inr old), rfl, rfl⟩

section

variable (kept : Kept s l)
include kept

/-- The new slot is at an address that no pending ring update compares with. -/
theorem pushNew_keeps (limits : Limits) {i addr : Nat} {data : Data}
    (call : s.enqueues[i]? = some (.counted key data)) (missing : hmGet s.index key = none)
    (unused : addr ∉ s.inUse) (fresh : .pushed key addr ∉ s.enqueues) :
    Kept (pushItem limits (makeSlot s addr key) i ⟨addr, key, []⟩ data) l ∧
      Turns s l (pushItem limits (makeSlot s addr key) i ⟨addr, key, []⟩ data) l := by
  have outside : addr ∉ l := by
    intro member
    obtain ⟨slot, inside, rfl⟩ := kept.live.ring addr member
    exact unused (mem_append_left _ (mem_map_of_mem inside))
  have made : Kept (makeSlot s addr key) l := ⟨kept.ring.makeSlot outside key,
    kept.live.addSlot unused (hmGet_none missing) fresh, kept.ledger.makeSlot addr key⟩
  have turns : Turns s l (makeSlot s addr key) l :=
    .keep rfl rfl fun slot member => ⟨slot, mem_append_left _ member, rfl, rfl⟩
  have inside : (⟨addr, key, []⟩ : Slot Key Data) ∈ (makeSlot s addr key).index :=
    mem_append_right _ (mem_singleton_self _)
  obtain ⟨after, more⟩ := pushItem_keeps limits made inside call
  exact ⟨after, turns.trans more⟩

theorem ringUpdate_ledger {i addr : Nat} (call : s.enqueues[i]? = some (.pushed key addr))
    (ring : Ring) : Ledger { s with ring, enqueues := s.enqueues.eraseIdx i } := by
  refine kept.ledger.move rfl rfl rfl (List.Perm.refl _) ?_
  simp [State.inFlight, (perm_eraseIdx call).countP_eq, Enqueue.isCounted]

/-- A pending ring update of a slot that is still the one of its agent. -/
theorem awaits (inside : slot ∈ s.index) (member : .pushed slot.key slot.addr ∈ s.enqueues) :
    slot.queue ≠ [] ∧ pendingAt s.enqueues slot = 1 ∧ slot.addr ∉ l := by
  have positive := pendingAt_pos member
  cases kept.live.placed slot inside with
  | idle _ quiet _ => omega
  | active _ quiet _ => omega
  | awaiting filled one outside => exact ⟨filled, one, outside⟩

theorem ringAppend_keeps {i : Nat} (call : s.enqueues[i]? = some (.pushed slot.key slot.addr))
    (inside : slot ∈ s.index) : ∃ ring, s.ring.ringAppend slot.addr = some ring ∧
      Kept { s with ring, enqueues := s.enqueues.eraseIdx i } (l ++ [slot.addr]) := by
  have perm := perm_eraseIdx call
  obtain ⟨filled, one, outside⟩ := awaits kept inside (perm.symm.subset mem_cons_self)
  obtain ⟨ring, appended, ok⟩ := ringAppend_spec kept.ring outside
  refine ⟨ring, appended, ok, ?_, ringUpdate_ledger kept call ring⟩
  obtain ⟨xs, ys, split, -, -⟩ := mem_split_addr inside kept.live.distinct
  have live := kept.live
  simp only [split] at live ⊢
  have counted := pendingAt_cons perm slot
  simp only [Enqueue.target?, if_true] at counted
  refine live.setQueue (.active filled (by omega) (by simp)) ?_ ?_
  · intro other apart
    rw [pendingAt_cons perm]
    simp [Enqueue.target?, apart.symm]
  · intro a apart
    simp [apart]

/-- The slot has been dropped; the agent has none, or one elsewhere. -/
theorem lateUpdate_keeps {i addr : Nat} (call : s.enqueues[i]? = some (.pushed key addr))
    (gone : ∀ slot, hmGet s.index key = some slot → slot.addr ≠ addr) :
    Kept { s with enqueues := s.enqueues.eraseIdx i } l := by
  refine ⟨kept.ring, kept.live.reenqueue ?_, ringUpdate_ledger kept call _⟩
  intro slot inside
  have other : ¬ (key = slot.key ∧ addr = slot.addr) := by
    rintro ⟨rfl, rfl⟩
    exact gone slot (hmGet_of_mem kept.live.keys inside) rfl
  rw [pendingAt_cons (perm_eraseIdx call)]
  simp [Enqueue.target?, other]

theorem drainNext_keeps {addr : Nat} (free : s.drain = none) (cursor : s.ring.cursor = some addr) :
    ∃ slot l', s.index.find? (fun slot => decide (slot.addr = addr)) = some slot ∧
      Kept { s with
        ring := s.ring.drainRing addr, index := setQueue s.index addr []
        drain := some ⟨slot.queue, 0⟩, drained := s.drained ++ [slot.key] } l' ∧
      Turns s l { s with
        ring := s.ring.drainRing addr, index := setQueue s.index addr []
        drain := some ⟨slot.queue, 0⟩, drained := s.drained ++ [slot.key] } l' := by
  rw [kept.ring.cursor] at cursor
  obtain ⟨l, rfl⟩ := head?_eq_some_iff.1 cursor
  obtain ⟨slot, inside, rfl⟩ := kept.live.ring addr mem_cons_self
  have found : s.index.find? (fun other => decide (other.addr = slot.addr)) = some slot := by
    cases search : s.index.find? (fun other => decide (other.addr = slot.addr)) with
    | none => exact absurd (by simp) (find?_eq_none.1 search slot inside)
    | some other =>
      have same : other.addr = slot.addr := by simpa using find?_some search
      rw [kept.live.addr_inj (mem_of_find?_eq_some search) inside same]
  have distinct := nodup_cons.1 kept.ring.distinct
  obtain ⟨xs, ys, split, set, -⟩ := mem_split_addr inside kept.live.distinct
  have live := kept.live
  rw [split] at live
  refine ⟨slot, l, found, ⟨drainRing_spec kept.ring, ?_, ?_⟩, [slot.key], [], rfl, by simp, ?_⟩
  · simp only [set]
    have quiet : pendingAt s.enqueues slot = 0 := by
      cases kept.live.placed slot inside with
      | idle _ quiet _ => exact quiet
      | active _ quiet _ => exact quiet
      | awaiting _ _ outside => exact absurd mem_cons_self outside
    refine live.setQueue (.idle rfl quiet distinct.1) (fun _ _ => rfl) ?_
    intro a apart
    simp [apart]
  · simp only [set]
    exact kept.ledger.drain kept.live.keys split free _ _
  · intro other member ahead _ apart
    rw [mem_singleton] at apart
    have elsewhere : other.addr ≠ slot.addr := fun same =>
      apart (congrArg (·.key) (kept.live.addr_inj member inside same))
    have behind : other.addr ∈ l := (mem_cons.1 ahead).resolve_left elsewhere
    refine ⟨⟨other, ?_, rfl, rfl⟩, behind, ?_⟩
    · simp only [setQueue, mem_map]
      exact ⟨other, member, if_neg elsewhere⟩
    · rw [idxOf_cons_ne _ elsewhere.symm]
      exact le_refl _

theorem dropSlot_keeps (inside : slot ∈ s.index)
    {ring : Ring} (ok : RingOk ring (l.erase slot.addr)) :
    Kept (dropSlot s ring slot) (l.erase slot.addr) ∧
      Turns s l (dropSlot s ring slot) (l.erase slot.addr) := by
  obtain ⟨xs, ys, split, -, erased⟩ := mem_split_addr inside kept.live.distinct
  have live := kept.live
  rw [split] at live
  unfold dropSlot
  simp only [erased]
  refine ⟨⟨ok, live.dropSlot kept.ring.distinct _ _, kept.ledger.drop split _ _⟩,
    [], [slot.key], by simp, rfl, ?_⟩
  intro other member ahead apart _
  rw [mem_singleton] at apart
  have elsewhere : other.addr ≠ slot.addr := fun same =>
    apart (congrArg (·.key) (kept.live.addr_inj member inside same))
  have stays : other ∈ xs ++ ys := by
    rw [split] at member
    exact (mem_middle.1 member).resolve_left fun same => elsewhere (congrArg (·.addr) same)
  have still : other.addr ∈ l.erase slot.addr := kept.ring.distinct.mem_erase_iff.2 ⟨elsewhere, ahead⟩
  refine ⟨⟨other, stays, rfl, rfl⟩, still, ?_⟩
  exact idxOf_erase_le elsewhere l

theorem enqueue_keeps {e : Enqueue Key Data} (counted : e.isCounted = true)
    (apart : e.target? = none) :
    Kept { s with itemsGlobal := s.itemsGlobal + 1, enqueues := s.enqueues ++ [e] } l := by
  refine ⟨kept.ring, kept.live.reenqueue ?_, kept.ledger.move rfl rfl rfl (List.Perm.refl _) ?_⟩
  · intro slot _
    simp [pendingAt, apart]
  · simp only [State.inFlight, countP_append, countP_singleton, counted, if_true]
    omega

theorem refuse_keeps {i : Nat} {data : Data} (call : s.enqueues[i]? = some (.refused data)) :
    Kept { s with itemsGlobal := s.itemsGlobal - 1, enqueues := s.enqueues.eraseIdx i } l := by
  have perm := perm_eraseIdx call
  refine ⟨kept.ring, kept.live.reenqueue ?_, kept.ledger.move rfl rfl rfl (List.Perm.refl _) ?_⟩
  · intro slot _
    rw [pendingAt_cons perm]
    rfl
  · have before := kept.ledger.count
    simp only [State.inFlight, perm.countP_eq, countP_cons, Enqueue.isCounted,
      if_true] at before ⊢
    omega

variable {item : Item Key Data} {chain : List (Item Key Data)} {drained : Nat}

theorem consume_keeps (busy : s.drain = some ⟨item :: chain, drained⟩) :
    Kept { s with consumed := s.consumed ++ [item], drain := some ⟨chain, drained + 1⟩ } l := by
  refine ⟨kept.ring, kept.live, kept.ledger.move rfl rfl ?_ (List.Perm.refl _) ?_⟩
  · simp [State.transit, busy]
  · simp only [State.inFlight, busy, Option.map_some, Option.getD_some, length_cons]
    omega

theorem drainEnd_keeps (busy : s.drain = some ⟨[], drained⟩) :
    Kept { s with itemsGlobal := s.itemsGlobal - drained, drain := none } l := by
  refine ⟨kept.ring, kept.live, kept.ledger.move rfl rfl ?_ (List.Perm.refl _) ?_⟩
  · simp [State.transit, busy]
  · have before := kept.ledger.count
    simp only [State.inFlight, busy, Option.map_some, Option.getD_some, Option.map_none,
      Option.getD_none, length_nil] at before ⊢
    omega

variable {j addr : Nat}

theorem dispose_keeps {count : Option Nat} (call : s.drops[j]? = some ⟨addr, item :: chain, count⟩) :
    Kept { s with
      disposed := s.disposed ++ [item], drops := s.drops.set j ⟨addr, chain, count⟩ } l := by
  obtain ⟨rest, n, before, after, counts, counts'⟩ := drops_set call ⟨addr, chain, count⟩
  refine ⟨kept.ring, kept.live.redrop (slots_set call _ rfl), kept.ledger.move rfl rfl rfl ?_ ?_⟩
  · have moved : s.disposed ++ [item] ++ (chain ++ rest) =
        s.disposed ++ (item :: chain ++ rest) := by
      simp
    refine (after.append_left (s.disposed ++ [item])).trans ?_
    rw [moved]
    exact before.symm.append_left s.disposed
  · simp only [State.inFlight] at counts counts' ⊢
    omega

theorem uncount_keeps {count : Nat} (call : s.drops[j]? = some ⟨addr, [], some count⟩) :
    Kept { s with
      itemsGlobal := s.itemsGlobal - count, drops := s.drops.set j ⟨addr, [], none⟩ } l := by
  obtain ⟨rest, n, before, after, counts, counts'⟩ := drops_set call ⟨addr, [], none⟩
  refine ⟨kept.ring, kept.live.redrop (slots_set call _ rfl), kept.ledger.move rfl rfl rfl ?_ ?_⟩
  · exact (after.trans before.symm).append_left s.disposed
  · have counted := kept.ledger.count
    simp only [State.inFlight, Option.getD_some, Option.getD_none] at counts counts' counted ⊢
    omega

theorem freeSlot_keeps (call : s.drops[j]? = some ⟨addr, [], none⟩) :
    Kept { s with drops := s.drops.eraseIdx j } l := by
  have perm := perm_eraseIdx call
  refine ⟨kept.ring, kept.live.redrop ((eraseIdx_sublist _ _).map _),
    kept.ledger.move rfl rfl rfl ?_ ?_⟩
  · exact (perm.flatMap_right (·.chain)).symm.append_left s.disposed
  · have before := (perm.map fun drop => drop.count.getD 0).sum_eq
    simp only [map_cons, sum_cons, Option.getD_none] at before
    simp only [State.inFlight]
    omega

end

/-- One step keeps the invariant, and no agent in the ring falls back. -/
theorem step_keeps (limits : Limits) (kept : Kept s l) {act : Act Key Data} (fresh : Fresh s act) :
    ∃ t l', step limits s act = some t ∧ Kept t l' ∧ Turns s l t l' := by
  fun_cases step limits s act with
  | case1 key data full =>
    have call : (if full then .refused data else .counted key data : Enqueue Key Data).isCounted =
        true ∧ (if full then .refused data else .counted key data : Enqueue Key Data).target? =
          none := by
      split <;> exact ⟨rfl, rfl⟩
    exact ⟨_, l, rfl, enqueue_keeps kept call.1 call.2, .same rfl rfl rfl⟩
  | case2 i addr key data call slot found =>
    obtain ⟨inside, rfl⟩ := hmGet_some found
    exact ⟨_, l, rfl, pushItem_keeps limits kept inside call⟩
  | case4 i addr key data call missing unused =>
    simp only [Fresh, call] at fresh
    exact ⟨_, l, rfl, pushNew_keeps kept limits call missing unused (fresh missing)⟩
  | case6 i data call => exact ⟨_, l, rfl, refuse_keeps kept call, .same rfl rfl rfl⟩
  | case8 i key addr call next slot found own =>
    obtain ⟨rfl, flag⟩ := own
    obtain ⟨inside, rfl⟩ := hmGet_some found
    obtain ⟨ring, appended, after⟩ := ringAppend_keeps kept call inside
    refine ⟨_, _, by rw [appended]; rfl, after, ?_⟩
    exact .stay rfl rfl (fun slot member => ⟨slot, member, rfl, rfl⟩) _
  | case9 i key addr call next slot found other =>
    refine ⟨_, l, rfl, lateUpdate_keeps kept call ?_, .same rfl rfl rfl⟩
    intro slot' found' same
    obtain rfl : slot = slot' := Option.some.inj (found.symm.trans found')
    obtain ⟨inside, rfl⟩ := hmGet_some found
    subst same
    have outside := (awaits kept inside (mem_of_getElem? call)).2.2
    exact other ⟨rfl, Bool.eq_false_iff.2 fun set => outside ((kept.ring.member _).1 set)⟩
  | case10 i key addr call next missing =>
    refine ⟨_, l, rfl, lateUpdate_keeps kept call fun slot found => ?_, .same rfl rfl rfl⟩
    cases missing.symm.trans found
  | case12 addr cursor free missing =>
    obtain ⟨slot, _, found, _⟩ := drainNext_keeps kept free cursor
    cases missing.symm.trans found
  | case13 addr cursor free slot there =>
    obtain ⟨slot', l', found, after⟩ := drainNext_keeps kept free cursor
    cases there.symm.trans found
    exact ⟨_, l', rfl, after⟩
  | case15 item chain drained busy => exact ⟨_, l, rfl, consume_keeps kept busy, .same rfl rfl rfl⟩
  | case17 drained busy => exact ⟨_, l, rfl, drainEnd_keeps kept busy, .same rfl rfl rfl⟩
  | case20 key slot found flag search =>
    obtain ⟨prev, search', -⟩ := dropFromRing_spec kept.ring ((kept.ring.member _).1 flag)
    cases search.symm.trans search'
  | case22 key slot found flag prev search =>
    obtain ⟨prev', search', ok⟩ := dropFromRing_spec kept.ring ((kept.ring.member _).1 flag)
    cases search.symm.trans search'
    exact ⟨_, _, rfl, dropSlot_keeps kept (hmGet_some found).1 ok⟩
  | case23 key slot found flag =>
    have outside : slot.addr ∉ l := fun member => flag ((kept.ring.member _).2 member)
    have ok := kept.ring
    rw [← erase_of_not_mem outside] at ok
    exact ⟨_, _, rfl, dropSlot_keeps kept (hmGet_some found).1 ok⟩
  | case24 j addr item chain count call =>
    exact ⟨_, l, rfl, dispose_keeps kept call, .same rfl rfl rfl⟩
  | case26 j addr count call => exact ⟨_, l, rfl, uncount_keeps kept call, .same rfl rfl rfl⟩
  | case28 j addr call => exact ⟨_, l, rfl, freeSlot_keeps kept call, .same rfl rfl rfl⟩
  | _ => exact ⟨s, l, rfl, kept, .same rfl rfl rfl⟩

/-! ## Runs -/

theorem kept_init : Kept (.init Key Data) [] := by
  refine ⟨ringOk_empty, ⟨.nil, .nil, nofun, nofun⟩, ⟨rfl, .nil, rfl, nofun, fun key => .nil⟩⟩

/-- A run keeps the invariant, and in it no agent of the ring falls back. -/
theorem run_keeps (kept : Kept s l) {acts : List (Act Key Data)} {t : State Key Data}
    (run : Steps (Meeting Fresh fun s a t => step limits s a = some t) s acts t) :
    ∃ l', Kept t l' ∧ Turns s l t l' := by
  induction run with
  | nil => exact ⟨l, kept, .same rfl rfl rfl⟩
  | snoc _ last ih =>
    obtain ⟨m, before, sofar⟩ := ih
    obtain ⟨u, m', moved, after, turns⟩ := step_keeps limits before last.1
    cases moved.symm.trans last.2
    exact ⟨m', after, sofar.trans turns⟩

theorem Kept.delivers (kept : Kept s l) : Delivers s := by
  have list := kept.ring.toList
  have quiet : s.Updated → ∀ slot, pendingAt s.enqueues slot = 0 := by
    intro updated slot
    refine pendingAt_eq_zero fun pushed => ?_
    cases updated _ pushed
  have ready : s.Updated → ∀ slot ∈ s.index, slot.addr ∈ s.ring.toList ↔ slot.queue ≠ [] := by
    intro updated slot member
    have none := quiet updated slot
    rw [list]
    cases kept.live.placed slot member with
    | idle empty _ outside => simp [empty, outside]
    | active filled _ inside => simp [filled, inside]
    | awaiting _ one _ => omega
  refine ⟨kept.ledger.numbered, kept.ledger.once, ?_, kept.ledger.inOrder, kept.ledger.count, ready,
    ?_, ?_, ?_, ?_⟩
  · intro updated empty idle undropped
    have queued : s.queued = [] := by
      rw [State.queued, flatMap_eq_nil_iff]
      intro slot member
      by_contra filled
      have inside := (ready updated slot member).2 filled
      rw [empty] at inside
      cases inside
    have once := kept.ledger.once
    rw [State.everywhere, queued, State.transit, idle, State.dropping, undropped] at once
    simpa using once
  · rw [list]
    exact kept.live.ring
  · rw [list]
    exact kept.ring.distinct
  · rw [list]
    exact ⟨kept.ring.cursor.trans kept.ring.head.symm, kept.ring.head⟩
  · intro a cursor
    rw [list]
    rw [kept.ring.cursor] at cursor
    obtain rfl | ⟨xs, p, rfl⟩ := l.eq_nil_or_concat'
    · cases cursor
    · refine ⟨p, by simp, by rw [kept.ring.prevCursor, getLast?_concat], ?_⟩
      have links := (Linked.leads_append.1 kept.ring.links).2.1
      rw [cursor] at links
      simpa using links

/-- **The batch queue delivers every accepted item once and starves no agent** in runs in which no
agent gets a new slot at an address that an enqueue of the agent between its push and its ring
update still compares with. No such run follows a dangling pointer. -/
theorem batch_queue_delivers (limits : Limits) {acts : List (Act Key Data)} {s : State Key Data}
    (run : Steps (Meeting Fresh fun s a t => step limits s a = some t) (.init Key Data) acts s) :
    Delivers s ∧ (∀ act, Fresh s act → ∃ t, step limits s act = some t) ∧
      ∀ more t, Steps (Meeting Fresh fun s a t => step limits s a = some t) s more t →
        NoStarvation s t := by
  obtain ⟨l, kept, -⟩ := run_keeps kept_init run
  refine ⟨kept.delivers, ?_, ?_⟩
  · intro act fresh
    obtain ⟨t, -, moved, -⟩ := step_keeps limits kept fresh
    exact ⟨t, moved⟩
  · intro more t later
    obtain ⟨l', -, drained, dropped, drains, drops, up⟩ := run_keeps kept later
    intro slot member ahead
    rw [kept.ring.toList] at ahead ⊢
    rw [drains, drops, drop_left, drop_left]
    intro undropped undrained
    have closer := (up slot member ahead undropped undrained).2.2
    omega

instance [DecidableEq Data] (s : State Key Data) (act : Act Key Data) : Decidable (Fresh s act) := by
  cases act with
  | push i addr =>
    dsimp only [Fresh]
    split
    · exact inferInstance
    · exact inferInstance
  | _ => exact inferInstanceAs (Decidable True)

end Steps

/-- Two agents; the second is served and the first dropped while its ring update is pending. -/
def dropRun : List (Act Nat Nat) :=
  [.enqueue 1 10, .push 0 100, .enqueue 2 20, .push 1 200, .enqueue 2 21, .push 2 0,
    .ringUpdate 1, .dropAgent 1, .drainNext, .consume, .dispose 0, .consume, .uncount 0, .drainEnd,
    .freeSlot 0, .enqueue 1 11, .push 1 300, .ringUpdate 0, .ringUpdate 0]

theorem batch_queue_delivers_drop :
    ∃ s, Steps (Meeting Fresh fun s a t => step ⟨10, 5⟩ s a = some t) (.init Nat Nat) dropRun s ∧
      Delivers s ∧ s.consumed.map (·.data) = [20, 21] ∧ s.disposed.map (·.data) = [10] ∧
      s.ring.toList = [300] ∧ s.itemsGlobal = 1 := by
  have run : Steps (Meeting Fresh fun s a t => step ⟨10, 5⟩ s a = some t) (.init Nat Nat) dropRun _ :=
    Steps.of_executeChecked (fun met => of_decide_eq_true met) rfl
  exact ⟨_, run, (batch_queue_delivers _ run).1, rfl, rfl, rfl, rfl⟩

/-- The slot of agent 1 is dropped while the ring update of its first enqueue is pending, and the
next enqueue of the agent gets a slot at the same address. -/
def reuseRun : List (Act Nat Nat) :=
  [.enqueue 1 10, .push 0 100, .dropAgent 1, .dispose 0, .uncount 0, .freeSlot 0,
    .enqueue 1 11, .push 1 100, .ringUpdate 0, .drainNext, .consume, .drainEnd, .ringUpdate 0]

/-- Every call has returned, the agent is in the ring, and its queue is empty. -/
theorem late_ring_update_empty_agent :
    ∃ s, execute (step ⟨10, 5⟩) (.init Nat Nat) reuseRun = some s ∧ s.enqueues = [] ∧
      s.drain = none ∧ s.drops = [] ∧ s.index = [⟨100, 1, []⟩] ∧ s.ring.toList = [100] ∧
      ¬ Delivers s := by
  refine ⟨_, rfl, rfl, rfl, rfl, rfl, rfl, ?_⟩
  intro delivers
  have filled := (delivers.ready (fun _ member => by cases member) ⟨100, 1, []⟩
    (mem_singleton_self _)).1 (mem_singleton_self _)
  exact filled rfl

end GuardSarm.BatchQueue
