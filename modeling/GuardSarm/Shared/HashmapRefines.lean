import GuardSarm.Shared.Hashmap

/-!
# The hash map is a finite map

The table of `Shared.Hashmap` and the finite map that it stands for.

* `WellFormed.insert`: a new key put on its way, into an empty or a deleted slot;
* `perform_spec`: one call on the table and on the finite map.
-/

namespace GuardSarm.Hm

open List

open Probing

variable {Key Value : Type} {hash : Key → Nat} {hm : Hashmap Key Value} {key : Key}
  {value : Value}

/-! ## Positions -/

variable {capacity : Nat}

section

variable (power : ∃ n, 4 ≤ n ∧ capacity = 2 ^ n)
include power

theorem and_eq_mod (x : Nat) : x &&& (capacity - 1) = x % capacity := by
  obtain ⟨n, -, rfl⟩ := power
  exact Nat.and_two_pow_sub_one_eq_mod x n

theorem next_eq : next capacity = succMod capacity := by
  funext idx
  exact and_eq_mod power (idx + 1)

theorem sixteen_le : 16 ≤ capacity := by
  obtain ⟨n, large, rfl⟩ := power
  exact (Nat.pow_le_pow_right (by decide : 0 < 2) large : 2 ^ 4 ≤ 2 ^ n)

theorem home_lt : home hash capacity key < capacity := by
  have large := sixteen_le power
  rw [home, and_eq_mod power]
  exact Nat.mod_lt _ (by omega)

end

theorem nextPow2From_power {p x : Nat} (power : ∃ n, 4 ≤ n ∧ p = 2 ^ n) :
    ∃ n, 4 ≤ n ∧ nextPow2From p x = 2 ^ n := by
  fun_induction nextPow2From p x with
  | case1 p less ih =>
    obtain ⟨n, large, rfl⟩ := power
    exact ih ⟨n + 1, by omega, by rw [Nat.shiftLeft_eq, pow_one, pow_succ]⟩
  | case2 p stop => exact power

namespace WellFormed

theorem empty_mem (formed : WellFormed hash hm) : .empty ∈ hm.entries := by
  have load := formed.load
  rw [formed.size, formed.tombstones, ← formed.length] at load
  exact empty_mem_of_count_lt load

theorem home_lt (formed : WellFormed hash hm) : home hash hm.capacity key < hm.entries.length := by
  rw [formed.length]
  exact Hm.home_lt formed.power

theorem empty_table (power : ∃ n, 4 ≤ n ∧ capacity = 2 ^ n) :
    WellFormed hash (⟨List.replicate capacity .empty, capacity, 0, 0⟩ : Hashmap Key Value) where
  length := by simp
  power := power
  size := by simp [List.countP_replicate, Slot.isOccupied]
  tombstones := by simp [List.countP_replicate, Slot.isDeleted]
  load := by
    have large := sixteen_le power
    simp only
    omega
  chained := by
    intro idx key value stands
    simp [getElem?_replicate] at stands
  distinct := by
    intro i j key v w stands
    simp [getElem?_replicate] at stands

/-- A new key put on its way into an empty or a deleted slot. -/
theorem insert (formed : WellFormed hash hm) (absent : ∀ value, .occupied key value ∉ hm.entries)
    {target : Nat} (reused : Bool)
    (way : OnWay hm.entries (home hash hm.capacity key) target)
    (stands : hm.entries[target]? = some (if reused then .deleted else .empty))
    (room : reused = false → hm.size + hm.tombstones + 1 < hm.capacity) (value : Value) :
    WellFormed hash { hm with
      entries := hm.entries.set target (.occupied key value)
      size := hm.size + 1
      tombstones := if reused ∧ 0 < hm.tombstones then hm.tombstones - 1 else hm.tombstones } where
  length := by simpa using formed.length
  power := formed.power
  size := by
    have counted := countP_set_add Slot.isOccupied (.occupied key value) stands
    have size := formed.size
    cases reused <;> simp [Slot.isOccupied] at counted ⊢ <;> omega
  tombstones := by
    have counted := countP_set_add Slot.isDeleted (.occupied key value) stands
    have tombstones := formed.tombstones
    cases reused with
    | false =>
      simp [Slot.isDeleted] at counted ⊢
      omega
    | true =>
      simp [Slot.isDeleted] at counted ⊢
      split <;> omega
  load := by
    have load := formed.load
    have tombstones := formed.tombstones
    have counted := countP_set_add Slot.isDeleted (.occupied key value) stands
    cases reused with
    | false =>
      have room := room rfl
      simp
      omega
    | true =>
      simp [Slot.isDeleted] at counted ⊢
      split <;> omega
  chained := by
    refine formed.chained.set (by simp) ?_
    intro k v same
    cases same
    exact way
  distinct := by
    refine formed.distinct.set ?_
    intro k v same i w there
    cases same
    exact absurd (mem_of_getElem? there) (absent w)

variable {idx : Nat}

theorem update (formed : WellFormed hash hm) {old : Value}
    (stands : hm.entries[idx]? = some (.occupied key old)) (value : Value) :
    WellFormed hash { hm with entries := hm.entries.set idx (.occupied key value) } where
  length := by simpa using formed.length
  power := formed.power
  size := by
    have counted := countP_set_add Slot.isOccupied (.occupied key value) stands
    have size := formed.size
    simp [Slot.isOccupied] at counted ⊢
    omega
  tombstones := by
    have counted := countP_set_add Slot.isDeleted (.occupied key value) stands
    have tombstones := formed.tombstones
    simp [Slot.isDeleted] at counted ⊢
    omega
  load := formed.load
  chained := by
    refine formed.chained.set (by simp) ?_
    intro k v same
    cases same
    exact formed.chained idx key old stands
  distinct := by
    refine formed.distinct.set ?_
    intro k v same i w there
    cases same
    exact formed.distinct i idx key w old there stands

theorem delete (formed : WellFormed hash hm)
    (stands : hm.entries[idx]? = some (.occupied key value)) :
    0 < hm.size ∧ WellFormed hash { hm with
      entries := hm.entries.set idx .deleted
      size := hm.size - 1
      tombstones := hm.tombstones + 1 } := by
  have occupied := countP_set_add Slot.isOccupied .deleted stands
  have deleted := countP_set_add Slot.isDeleted .deleted stands
  have size := formed.size
  have tombstones := formed.tombstones
  have load := formed.load
  simp [Slot.isOccupied] at occupied
  simp [Slot.isDeleted] at deleted
  refine ⟨by omega, ?_, formed.power, ?_, ?_, ?_, ?_, ?_⟩
  · simpa using formed.length
  · simp only
    omega
  · simp only
    omega
  · simp only
    omega
  · exact formed.chained.set (by simp) (by simp)
  · exact formed.distinct.set (by simp)

end WellFormed

/-! ## Rehashing -/

variable {slots : List (Slot Key Value)}

theorem of_free {idx found : Nat}
    (empty : free slots idx = some found) : found = idx ∧ slots[idx]? = some .empty := by
  unfold free at empty
  split at empty
  next stands =>
    cases empty
    exact ⟨rfl, stands⟩
  next => cases empty

theorem free_eq_none (taken : free slots idx = none) : slots[idx]? ≠ some .empty := by
  intro empty
  simp [free, empty] at taken

theorem reinsert_spec (formed : WellFormed hash hm)
    (absent : ∀ value, .occupied key value ∉ hm.entries)
    (room : hm.size + hm.tombstones + 1 < hm.capacity) (value : Value) :
    ∃ idx, hm.entries[idx]? = some .empty ∧
      reinsert hash hm key value = some { hm with
        entries := hm.entries.set idx (.occupied key value), size := hm.size + 1 } ∧
      WellFormed hash { hm with
        entries := hm.entries.set idx (.occupied key value), size := hm.size + 1 } := by
  obtain ⟨target, bound, empty⟩ := mem_iff_getElem.1 formed.empty_mem
  have decides : (free hm.entries target).isSome = true := by
    rw [free, getElem?_eq_getElem bound, empty]
    rfl
  obtain ⟨idx, found⟩ := scan_isSome formed.home_lt bound decides
  obtain ⟨d, round, decided, before⟩ := of_scan formed.home_lt found
  obtain ⟨rfl, stands⟩ := of_free decided
  refine ⟨_, stands, ?_, ?_⟩
  · rw [formed.length] at found ⊢
    rw [reinsert, next_eq formed.power, found]
    rfl
  · have way : OnWay hm.entries (home hash hm.capacity key)
        ((home hash hm.capacity key + d) % hm.entries.length) :=
      ⟨d, round, rfl, fun j earlier => free_eq_none (before j earlier)⟩
    have inserted := formed.insert absent false way stands (fun _ => room) value
    simpa using inserted

/-- The entries of `slots` are put into the new table one after the other. -/
theorem reinsert_all (slots : List (Slot Key Value)) (formed : WellFormed hash hm)
    (clean : hm.tombstones = 0) (room : hm.size + slots.countP Slot.isOccupied < hm.capacity)
    (keys : ((pairs slots).map Prod.fst).Nodup)
    (apart : ∀ key v w, .occupied key v ∈ slots → .occupied key w ∉ hm.entries) :
    ∃ neu, slots.foldlM (fun neu slot =>
        match slot with
        | .occupied key value => reinsert hash neu key value
        | _ => some neu) hm = some neu ∧
      WellFormed hash neu ∧ neu.tombstones = 0 ∧ neu.capacity = hm.capacity ∧
      neu.size = hm.size + slots.countP Slot.isOccupied ∧
      ∀ key value, .occupied key value ∈ neu.entries ↔
        .occupied key value ∈ slots ∨ .occupied key value ∈ hm.entries := by
  induction slots generalizing hm with
  | nil => exact ⟨hm, rfl, formed, clean, rfl, by simp, by simp⟩
  | cons slot slots ih =>
    cases slot with
    | empty | deleted =>
      obtain ⟨neu, done, rest⟩ := ih formed clean room keys
        (fun key v w inside => apart key v w (mem_cons_of_mem _ inside))
      refine ⟨neu, by simpa using done, ?_⟩
      simpa [Slot.isOccupied] using rest
    | occupied key value =>
      simp only [countP_cons, Slot.isOccupied, if_true] at room
      simp only [pairs, filterMap_cons, Slot.pair?, map_cons, nodup_cons] at keys
      have absent : ∀ w, .occupied key w ∉ hm.entries :=
        fun w => apart key value w mem_cons_self
      obtain ⟨idx, stands, inserted, formed'⟩ :=
        reinsert_spec formed absent (by omega) value
      have members : ∀ k v, .occupied k v ∈ hm.entries.set idx (.occupied key value) ↔
          (Slot.occupied key value = .occupied k v) ∨ .occupied k v ∈ hm.entries := by
        intro k v
        rw [formed.distinct.mem_set_iff stands]
        simp
      obtain ⟨neu, done, kept, empty, capacity, size, holds⟩ :=
        ih formed' clean (by simp only; omega) keys.2 (by
          intro k v w inside member
          obtain same | member := (members k w).1 member
          · cases same
            refine keys.1 (mem_map.2 ⟨(key, v), ?_, rfl⟩)
            exact mem_pairs.2 inside
          · exact apart k v w (mem_cons_of_mem _ inside) member)
      refine ⟨neu, ?_, kept, empty, capacity, ?_, ?_⟩
      · rw [foldlM_cons]
        simp only [inserted]
        exact done
      · rw [size]
        simp only [countP_cons, Slot.isOccupied, if_true]
        omega
      · intro k v
        constructor <;> grind

theorem shiftLeft_power (power : ∃ n, 4 ≤ n ∧ capacity = 2 ^ n) :
    ∃ n, 4 ≤ n ∧ capacity <<< 1 = 2 ^ n := by
  obtain ⟨n, large, rfl⟩ := power
  exact ⟨n + 1, by omega, by rw [Nat.shiftLeft_eq, pow_one, pow_succ]⟩

/-- The table after `hm_maybe_grow` has room for one more entry and holds the same ones. -/
theorem hmMaybeGrow_spec (formed : WellFormed hash hm) {m : Key → Option Value}
    (represents : Represents hm m) :
    ∃ grown, hmMaybeGrow hash hm = some grown ∧ WellFormed hash grown ∧ Represents grown m ∧
      grown.size + grown.tombstones + 1 < grown.capacity := by
  have large := sixteen_le formed.power
  have load := formed.load
  unfold hmMaybeGrow
  split
  next full =>
    have size := formed.size
    have double : hm.capacity <<< 1 = 2 * hm.capacity := by rw [Nat.shiftLeft_eq]; omega
    obtain ⟨neu, done, kept, clean, capacity, count, holds⟩ :=
      reinsert_all hm.entries
        (WellFormed.empty_table (shiftLeft_power formed.power) : WellFormed hash _) rfl
        (by simp only [double]; omega) formed.distinct.nodup (by simp)
    refine ⟨neu, done, kept, ?_, ?_⟩
    · intro key value
      rw [represents key value, holds key value]
      simp
    · simp only [double] at capacity count
      omega
  next roomy =>
    refine ⟨hm, rfl, formed, represents, ?_⟩
    simp only [hmLoadNum, hmLoadDen] at roomy
    omega

/-! ## The calls -/

section Calls

variable [DecidableEq Key] {m : Key → Option Value}

/-- The loop of `hm_get` and `hm_del` ends, at the key if the map has it. -/
theorem find_spec (formed : WellFormed hash hm) (represents : Represents hm m) (key : Key) :
    match m key with
    | some value => ∃ idx, find hash hm key = some (some idx) ∧
        hm.entries[idx]? = some (.occupied key value)
    | none => find hash hm key = some none := by
  rw [find, next_eq formed.power, ← formed.length]
  cases known : m key with
  | some value =>
    obtain ⟨idx, stands⟩ := mem_iff_getElem?.1 ((represents key value).1 known)
    have inside : home hash hm.capacity key < hm.entries.length := formed.home_lt
    have found := scan_finds formed.chained formed.distinct inside stands
    rw [formed.length] at found ⊢
    exact ⟨idx, found, stands⟩
  | none =>
    have absent : ∀ value, .occupied key value ∉ hm.entries := by
      intro value member
      rw [← represents key value, known] at member
      cases member
    have inside : home hash hm.capacity key < hm.entries.length := formed.home_lt
    have missed := scan_misses inside formed.empty_mem absent
    rw [formed.length] at missed ⊢
    exact missed

theorem hmGet_spec (formed : WellFormed hash hm) (represents : Represents hm m) (key : Key) :
    hmGet hash hm key = some (if (m key).isSome then 1 else 0, m key) := by
  have large := sixteen_le formed.power
  have found := find_spec formed represents key
  rw [hmGet, if_neg (by omega)]
  cases known : m key with
  | some value =>
    rw [known] at found
    obtain ⟨idx, found, stands⟩ := found
    simp [found, stands, Slot.pair?]
  | none =>
    rw [known] at found
    simp [found]

theorem represents_set (formed : WellFormed hash hm) (represents : Represents hm m)
    {old : Slot Key Value} (stands : hm.entries[idx]? = some old) (slot : Slot Key Value)
    {after : Option Value} (new : ∀ k v, slot = .occupied k v ↔ k = key ∧ after = some v)
    (gone : ∀ v, .occupied key v ∈ hm.entries → old = .occupied key v)
    (other : ∀ k v, old = .occupied k v → k = key) {changed : Hashmap Key Value}
    (entries : changed.entries = hm.entries.set idx slot) :
    Represents changed (Function.update m key after) := by
  intro k v
  rw [entries, formed.distinct.mem_set_iff stands, new k v]
  by_cases same : k = key
  · subst same
    rw [Function.update_self]
    constructor
    · intro becomes
      exact .inl ⟨rfl, becomes⟩
    · rintro (⟨-, becomes⟩ | ⟨member, kept⟩)
      · exact becomes
      · exact absurd (gone v member) kept
  · rw [Function.update_of_ne same, represents k v]
    constructor
    · intro member
      exact .inr ⟨member, fun equal => same (other k v equal)⟩
    · rintro (⟨equal, -⟩ | ⟨member, -⟩)
      · exact absurd equal same
      · exact member

theorem hmDel_spec (formed : WellFormed hash hm) (represents : Represents hm m) (key : Key) :
    ∃ after, hmDel hash hm key = some (if (m key).isSome then 1 else 0, after) ∧
      WellFormed hash after ∧ Represents after (Function.update m key none) := by
  have found := find_spec formed represents key
  cases known : m key with
  | some value =>
    rw [known] at found
    obtain ⟨idx, found, stands⟩ := found
    obtain ⟨filled, deleted⟩ := formed.delete stands
    refine ⟨_, ?_, deleted, ?_⟩
    · rw [hmDel, if_neg (by omega)]
      simp [found]
    · refine represents_set formed represents stands .deleted (by simp) ?_ ?_ rfl
      · intro v member
        obtain ⟨i, there⟩ := mem_iff_getElem?.1 member
        have same := formed.distinct i idx key v value there stands
        rw [same, stands] at there
        exact Option.some.inj there
      · intro k v same
        cases same
        rfl
  | none =>
    rw [known] at found
    refine ⟨hm, ?_, formed, ?_⟩
    · rw [hmDel]
      split
      · simp
      · simp [found]
    · rw [Function.update_eq_self_iff.2 known.symm]
      exact represents

/-- Where the loop of `hm_put` may end when the search for the key ends at `found`. -/
def Placed (slots : List (Slot Key Value)) (start : Nat) : Option Nat → Place → Prop
  | some i, .update j => i = j
  | none, .insert target reused =>
    OnWay slots start target ∧ slots[target]? = some (if reused then .deleted else .empty)
  | _, _ => False

/-- The loop of `hm_put` ends where the search for the key ends; a new key goes to
the first deleted slot on the way, or to the empty slot at its end. -/
theorem putLoop_spec {start d fuel : Nat} {firstTomb : Option Nat} (total : d + fuel = slots.length)
    (passed : ∀ j < d, slots[(start + j) % slots.length]? ≠ some .empty)
    (tomb : ∀ t, firstTomb = some t → OnWay slots start t ∧ slots[t]? = some .deleted)
    {found : Option Nat}
    (ended : scan (look slots key) (succMod slots.length) fuel ((start + d) % slots.length) =
      some found) : ∃ place, putLoop slots key (succMod slots.length) fuel firstTomb
        ((start + d) % slots.length) = some place ∧ Placed slots start found place := by
  induction fuel generalizing d firstTomb with
  | zero => cases ended
  | succ fuel ih =>
    have bound : (start + d) % slots.length < slots.length := Nat.mod_lt _ (by omega)
    have here : OnWay slots start ((start + d) % slots.length) := ⟨d, by omega, rfl, passed⟩
    have onward : succMod slots.length ((start + d) % slots.length) =
        (start + (d + 1)) % slots.length := by
      rw [succMod, Nat.mod_add_mod, Nat.add_assoc]
    have step : slots[(start + d) % slots.length]? ≠ some .empty →
        ∀ j < d + 1, slots[(start + j) % slots.length]? ≠ some .empty := by
      intro taken j earlier
      obtain earlier | rfl := Nat.lt_succ_iff_lt_or_eq.1 earlier
      · exact passed j earlier
      · exact taken
    rw [scan, look, getElem?_eq_getElem bound] at ended
    unfold putLoop
    rw [getElem?_eq_getElem bound] at step ⊢
    cases stands : slots[(start + d) % slots.length] with
    | empty =>
      simp only [stands] at ended ⊢
      cases ended
      cases firstTomb with
      | none =>
        refine ⟨_, rfl, here, ?_⟩
        rw [getElem?_eq_getElem bound, stands]
        rfl
      | some t => exact ⟨_, rfl, tomb t rfl⟩
    | deleted =>
      simp only [stands, onward] at ended ⊢
      refine ih (by omega) (step (by simp [stands])) ?_ ended
      intro t first
      cases firstTomb with
      | none =>
        cases first
        exact ⟨here, by rw [Option.getD_none, getElem?_eq_getElem bound, stands]⟩
      | some t' =>
        cases first
        exact tomb t' rfl
    | occupied k v =>
      simp only [stands, onward] at ended ⊢
      split at ended
      next result same =>
        split at same
        next equal =>
          cases same
          cases ended
          rw [if_pos equal]
          exact ⟨_, rfl, rfl⟩
        next => cases same
      next other =>
        split at other
        next => cases other
        next differs =>
          rw [if_neg differs]
          exact ih (by omega) (step (by simp [stands])) tomb ended

theorem putLoop_from_home (formed : WellFormed hash hm) {found : Option Nat}
    (ended : find hash hm key = some found) :
    ∃ place, putLoop hm.entries key (next hm.capacity) hm.capacity none
        (home hash hm.capacity key) = some place ∧
      Placed hm.entries (home hash hm.capacity key) found place := by
  have inside : home hash hm.capacity key < hm.entries.length := formed.home_lt
  have start : (home hash hm.capacity key + 0) % hm.entries.length = home hash hm.capacity key := by
    rw [Nat.add_zero, Nat.mod_eq_of_lt inside]
  have walked : scan (look hm.entries key) (succMod hm.entries.length) hm.entries.length
      ((home hash hm.capacity key + 0) % hm.entries.length) = some found := by
    rw [start, formed.length, ← next_eq formed.power]
    exact ended
  obtain ⟨place, placed, spec⟩ :=
    putLoop_spec (Nat.zero_add _) (by simp) (show ∀ t, none = some t → _ by simp) walked
  rw [start, formed.length, ← next_eq formed.power] at placed
  exact ⟨place, placed, spec⟩

theorem hmPut_spec (formed : WellFormed hash hm) (represents : Represents hm m) (key : Key)
    (value : Value) :
    ∃ after, hmPut hash hm key value = some (if (m key).isSome then 1 else 0, after) ∧
      WellFormed hash after ∧ Represents after (Function.update m key (some value)) := by
  obtain ⟨grown, done, kept, holds, room⟩ := hmMaybeGrow_spec formed represents
  have found := find_spec kept holds key
  cases known : m key with
  | some old =>
    rw [known] at found
    obtain ⟨idx, found, stands⟩ := found
    obtain ⟨place, placed, spec⟩ := putLoop_from_home kept found
    cases place with
    | insert t reused => exact spec.elim
    | update i =>
      obtain rfl : idx = i := spec
      refine ⟨_, by simp [hmPut, done, placed], kept.update stands value, ?_⟩
      refine represents_set kept holds stands (.occupied key value) ?_ ?_ ?_ rfl
      · intro k v
        simp [eq_comm]
      · intro v member
        rw [← holds key v, known] at member
        cases member
        rfl
      · intro k v same
        cases same
        rfl
  | none =>
    rw [known] at found
    obtain ⟨place, placed, spec⟩ := putLoop_from_home kept found
    cases place with
    | update i => exact spec.elim
    | insert t reused =>
      obtain ⟨way, stands⟩ := spec
      have absent : ∀ v, .occupied key v ∉ grown.entries := by
        intro v member
        rw [← holds key v, known] at member
        cases member
      refine ⟨_, by simp [hmPut, done, placed],
        kept.insert absent reused way stands (fun _ => room) value, ?_⟩
      refine represents_set kept holds stands (.occupied key value) ?_ ?_ ?_ rfl
      · intro k v
        simp [eq_comm]
      · intro v member
        exact absurd member (absent v)
      · intro k v same
        cases reused <;> cases same

theorem perform_spec (formed : WellFormed hash hm) (represents : Represents hm m)
    (call : Call Key Value) :
    ∃ after, perform hash hm call = some (after, (Spec.perform m call).2) ∧
      WellFormed hash after ∧ Represents after (Spec.perform m call).1 := by
  cases call with
  | put key value =>
    obtain ⟨after, done, kept, holds⟩ := hmPut_spec formed represents key value
    exact ⟨after, by simp [perform, done, Spec.perform], kept, holds⟩
  | del key =>
    obtain ⟨after, done, kept, holds⟩ := hmDel_spec formed represents key
    exact ⟨after, by simp [perform, done, Spec.perform], kept, holds⟩
  | get key =>
    have done := hmGet_spec formed represents key
    exact ⟨hm, by simp [perform, done, Spec.perform], formed, represents⟩

theorem run_spec (formed : WellFormed hash hm) (represents : Represents hm m)
    (calls : List (Call Key Value)) :
    ∃ after, run hash hm calls = some (after, (Spec.run m calls).2) ∧
      WellFormed hash after ∧ Represents after (Spec.run m calls).1 := by
  induction calls generalizing hm m with
  | nil => exact ⟨hm, rfl, formed, represents⟩
  | cons call calls ih =>
    obtain ⟨next, done, kept, holds⟩ := perform_spec formed represents call
    obtain ⟨after, rest, last⟩ := ih kept holds
    refine ⟨after, ?_, last⟩
    simp [run, done, rest, Spec.run]

end Calls

/-! ## Traversal -/

/-- What the loop of `hm_iter_next` skips and where it stops. -/
theorem iterLoop_spec {left idx : Nat} (total : idx + left = hm.entries.length) :
    match iterLoop hm left idx with
    | (none, _) => pairs (hm.entries.drop idx) = []
    | (some pair, idx') =>
      idx < idx' ∧ idx' ≤ hm.entries.length ∧
        pairs (hm.entries.drop idx) = pair :: pairs (hm.entries.drop idx') := by
  induction left generalizing idx with
  | zero =>
    have past : hm.entries.drop idx = [] := drop_eq_nil_of_le (by omega)
    simp [iterLoop, past, pairs]
  | succ left ih =>
    have inside : idx < hm.entries.length := by omega
    have rest : idx + 1 + left = hm.entries.length := by omega
    rw [drop_eq_getElem_cons inside]
    unfold iterLoop
    rw [getElem?_eq_getElem inside]
    cases stands : hm.entries[idx] with
    | occupied key value => exact ⟨Nat.lt_succ_self _, by omega, rfl⟩
    | empty | deleted =>
      have later := ih rest
      cases found : iterLoop hm left (idx + 1) with
      | mk produced idx' =>
        rw [found] at later
        cases produced with
        | none => exact later
        | some pair => exact ⟨by have := later.1; omega, later.2⟩

/-- A traversal visits the occupied slots in their order. -/
theorem traverse_eq (length : hm.entries.length = hm.capacity) {calls idx : Nat}
    (inside : idx ≤ hm.capacity) (enough : hm.capacity - idx < calls) :
    traverse hm calls idx = pairs (hm.entries.drop idx) := by
  induction calls generalizing idx with
  | zero => omega
  | succ calls ih =>
    have total : idx + (hm.capacity - idx) = hm.entries.length := by omega
    have stop := iterLoop_spec total
    rw [traverse, hmIterNext, if_neg (by omega)]
    cases found : iterLoop hm (hm.capacity - idx) idx with
    | mk produced idx' =>
      rw [found] at stop
      cases produced with
      | none => exact stop.symm
      | some pair =>
        obtain ⟨later, bound, split⟩ := stop
        rw [split]
        simp only [List.cons.injEq, true_and]
        exact ih (by omega) (by omega)

theorem hmInit_formed (hash : Key → Nat) (initialCapacity : Nat) :
    WellFormed hash (hmInit initialCapacity : Hashmap Key Value) :=
  .empty_table (nextPow2From_power ⟨4, Nat.le_refl 4, rfl⟩)

/-- **The hash map is a finite map.** For every hash function and every sequence of
calls after `hm_init` all loops end, the answers are those of the finite map, and
the table at the end is well formed: it has an empty slot, every key stands in one
slot that its search reaches, and the counters count. A traversal visits each key
of the map once, with its value. -/
theorem hashmap_refines [DecidableEq Key] (hash : Key → Nat) (initialCapacity : Nat)
    (calls : List (Call Key Value)) : ∃ hm : Hashmap Key Value,
      run hash (hmInit initialCapacity) calls = some (hm, (Spec.run (fun _ => none) calls).2) ∧
      WellFormed hash hm ∧ .empty ∈ hm.entries ∧ Represents hm (Spec.run (fun _ => none) calls).1 ∧
      ∀ n, hm.capacity < n → ((traverse hm n 0).map Prod.fst).Nodup ∧
        ∀ key value, (key, value) ∈ traverse hm n 0 ↔
          (Spec.run (fun _ => none) calls).1 key = some value := by
  have start : Represents (hmInit initialCapacity : Hashmap Key Value) (fun _ => none) := by
    intro key value
    simp [hmInit]
  obtain ⟨hm, done, formed, represents⟩ :=
    run_spec (hmInit_formed hash initialCapacity) start calls
  refine ⟨hm, done, formed, formed.empty_mem, represents, ?_⟩
  intro n enough
  rw [traverse_eq formed.length (Nat.zero_le _) (by omega), drop_zero]
  refine ⟨formed.distinct.nodup, ?_⟩
  intro key value
  rw [mem_pairs, represents key value]

end GuardSarm.Hm
