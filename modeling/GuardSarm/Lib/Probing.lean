import Mathlib

/-!
# Open addressing

A table of slots that is searched from the home position of a key onwards, round
the end, until a slot decides. Deleted slots stay in the way of a search so that
it does not stop early; an insertion may take one of them.
-/

namespace GuardSarm.Probing

open List

/-! ## The loop -/

section Scan

variable {α : Type*}

/-- Visits `idx`, the position after it and so on until a visit gives a result. -/
def scan (visit : Nat → Option α) (next : Nat → Nat) : Nat → Nat → Option α
  | 0, _ => none
  | fuel + 1, idx =>
    match visit idx with
    | some result => some result
    | none => scan visit next fuel (next idx)

variable {visit : Nat → Option α} {cap : Nat}

/-- The successor in a table of `cap` slots. -/
def succMod (cap idx : Nat) : Nat := (idx + 1) % cap

theorem succMod_add (cap idx i : Nat) : (succMod cap idx + i) % cap = (idx + (i + 1)) % cap := by
  rw [succMod, Nat.mod_add_mod]
  congr 1
  omega

theorem of_scan {fuel idx : Nat} {result : α} (inside : idx < cap)
    (found : scan visit (succMod cap) fuel idx = some result) :
    ∃ i < fuel, visit ((idx + i) % cap) = some result ∧
      ∀ j < i, visit ((idx + j) % cap) = none := by
  induction fuel generalizing idx with
  | zero => cases found
  | succ fuel ih =>
    rw [scan] at found
    cases here : visit idx with
    | some answer =>
      rw [here] at found
      cases found
      exact ⟨0, Nat.succ_pos _, by rw [Nat.add_zero, Nat.mod_eq_of_lt inside, here], by simp⟩
    | none =>
      rw [here] at found
      have next : succMod cap idx < cap := Nat.mod_lt _ (by omega)
      obtain ⟨i, bound, decided, before⟩ := ih next found
      refine ⟨i + 1, by omega, by rw [← succMod_add, decided], ?_⟩
      intro j earlier
      cases j with
      | zero => rw [Nat.add_zero, Nat.mod_eq_of_lt inside, here]
      | succ j =>
        rw [← succMod_add]
        exact before j (by omega)

theorem scan_eq_some {fuel idx i : Nat} {result : α} (inside : idx < cap) (bound : i < fuel)
    (decided : visit ((idx + i) % cap) = some result)
    (before : ∀ j < i, visit ((idx + j) % cap) = none) :
    scan visit (succMod cap) fuel idx = some result := by
  induction i generalizing fuel idx with
  | zero =>
    obtain ⟨fuel, rfl⟩ : ∃ n, fuel = n + 1 := ⟨fuel - 1, by omega⟩
    rw [Nat.add_zero, Nat.mod_eq_of_lt inside] at decided
    rw [scan, decided]
  | succ i ih =>
    obtain ⟨fuel, rfl⟩ : ∃ n, fuel = n + 1 := ⟨fuel - 1, by omega⟩
    have here := before 0 (Nat.succ_pos _)
    rw [Nat.add_zero, Nat.mod_eq_of_lt inside] at here
    rw [scan, here]
    refine ih (Nat.mod_lt _ (by omega)) (by omega) (by rw [succMod_add, decided]) ?_
    intro j earlier
    rw [succMod_add]
    exact before (j + 1) (by omega)

theorem exists_offset {idx target : Nat} (inside : idx < cap) (bound : target < cap) :
    ∃ i < cap, (idx + i) % cap = target := by
  by_cases behind : idx ≤ target
  · exact ⟨target - idx, by omega, by rw [Nat.add_sub_cancel' behind, Nat.mod_eq_of_lt bound]⟩
  · refine ⟨target + cap - idx, by omega, ?_⟩
    rw [show idx + (target + cap - idx) = target + cap by omega, Nat.add_mod_right,
      Nat.mod_eq_of_lt bound]

theorem offset_injective {idx i j : Nat} (first : i < cap) (second : j < cap)
    (same : (idx + i) % cap = (idx + j) % cap) : i = j := by
  have equal := Nat.ModEq.add_left_cancel' idx same
  exact Nat.ModEq.eq_of_lt_of_lt equal first second

/-- The loop ends within one round if some position decides. -/
theorem scan_isSome {idx target : Nat} (inside : idx < cap) (bound : target < cap)
    (decides : (visit target).isSome = true) :
    ∃ result, scan visit (succMod cap) cap idx = some result := by
  have reached : ∃ i, i < cap ∧ (visit ((idx + i) % cap)).isSome = true := by
    obtain ⟨i, round, rfl⟩ := exists_offset inside bound
    exact ⟨i, round, decides⟩
  obtain ⟨round, decided⟩ := Nat.find_spec reached
  obtain ⟨result, decided⟩ := Option.isSome_iff_exists.1 decided
  refine ⟨result, scan_eq_some inside round decided ?_⟩
  intro j earlier
  have undecided := Nat.find_min reached earlier
  rw [not_and] at undecided
  exact Option.not_isSome_iff_eq_none.1 (undecided (by omega))

end Scan

/-! ## Tables -/

inductive Slot (Key Value : Type*) where
  | empty
  | deleted
  | occupied (key : Key) (value : Value)
  deriving DecidableEq

section Table

variable {Key Value : Type*}

def Slot.isDeleted : Slot Key Value → Bool
  | .deleted => true
  | _ => false

def Slot.isOccupied : Slot Key Value → Bool
  | .occupied _ _ => true
  | _ => false

def Slot.pair? : Slot Key Value → Option (Key × Value)
  | .occupied key value => some (key, value)
  | _ => none

/-- The pairs of the occupied slots, in the order of the slots. -/
def pairs (slots : List (Slot Key Value)) : List (Key × Value) := slots.filterMap Slot.pair?

variable {value : Value}

theorem mem_pairs {slots : List (Slot Key Value)} {key : Key} :
    (key, value) ∈ pairs slots ↔ .occupied key value ∈ slots := by
  rw [pairs, mem_filterMap]
  constructor
  · rintro ⟨slot, inside, same⟩
    cases slot with
    | empty => cases same
    | deleted => cases same
    | occupied k v =>
      cases same
      exact inside
  · intro inside
    exact ⟨_, inside, rfl⟩

/-- The slot at offset `d` is on the way of the search from `home`. -/
def OnWay (slots : List (Slot Key Value)) (home idx : Nat) : Prop :=
  ∃ d < slots.length, idx = (home + d) % slots.length ∧
    ∀ j < d, slots[(home + j) % slots.length]? ≠ some .empty

def Chained (home : Key → Nat) (slots : List (Slot Key Value)) : Prop :=
  ∀ idx key value, slots[idx]? = some (.occupied key value) → OnWay slots (home key) idx

def Distinct (slots : List (Slot Key Value)) : Prop :=
  ∀ (i j : Nat) (key : Key) (v w : Value), slots[i]? = some (.occupied key v) →
    slots[j]? = some (.occupied key w) → i = j

variable {slots : List (Slot Key Value)} {home : Key → Nat} {key : Key} {idx : Nat}
  {slot : Slot Key Value}

theorem getElem?_set_ne_empty (filled : slot ≠ .empty) {i : Nat}
    (before : slots[i]? ≠ some .empty) : (slots.set idx slot)[i]? ≠ some .empty := by
  rw [getElem?_set]
  split_ifs
  · simpa using filled
  · simp
  · exact before

theorem OnWay.set (filled : slot ≠ .empty) {start i : Nat} (way : OnWay slots start i) :
    OnWay (slots.set idx slot) start i := by
  obtain ⟨d, bound, rfl, before⟩ := way
  refine ⟨d, by simpa using bound, by simp, ?_⟩
  intro j earlier
  rw [length_set]
  exact getElem?_set_ne_empty filled (before j earlier)

/-- A slot may be given any content but `empty`, if a key that it gets is on the
way of the search for it. -/
theorem Chained.set (chained : Chained home slots) (filled : slot ≠ .empty)
    (way : ∀ key value, slot = .occupied key value → OnWay slots (home key) idx) :
    Chained home (slots.set idx slot) := by
  intro i key value stands
  rw [getElem?_set] at stands
  split_ifs at stands with same
  · subst same
    exact (way key value (Option.some.inj stands)).set filled
  · exact (chained i key value stands).set filled

/-- A slot may be given a key that stands nowhere else. -/
theorem Distinct.set (distinct : Distinct slots) (alone : ∀ key value, slot = .occupied key value →
      ∀ i v, slots[i]? = some (.occupied key v) → i = idx) : Distinct (slots.set idx slot) := by
  have new : ∀ i key v, (slots.set idx slot)[i]? = some (.occupied key v) →
      (idx = i ∧ slot = .occupied key v) ∨ (idx ≠ i ∧ slots[i]? = some (.occupied key v)) := by
    intro i key v stands
    rw [getElem?_set] at stands
    split_ifs at stands with same
    · exact .inl ⟨same, Option.some.inj stands⟩
    · exact .inr ⟨same, stands⟩
  intro i j key v w first second
  obtain ⟨rfl, here⟩ | ⟨apart, there⟩ := new i key v first
  · obtain ⟨rfl, -⟩ | ⟨other, there⟩ := new j key w second
    · rfl
    · exact (alone key v here j w there).symm
  · obtain ⟨rfl, here⟩ | ⟨-, also⟩ := new j key w second
    · exact alone key w here i v there
    · exact distinct i j key v w there also

/-- What stands in the table after a slot has got a new content. -/
theorem Distinct.mem_set_iff (distinct : Distinct slots) {old : Slot Key Value}
    (stands : slots[idx]? = some old) : .occupied key value ∈ slots.set idx slot ↔
      slot = .occupied key value ∨ (.occupied key value ∈ slots ∧ old ≠ .occupied key value) := by
  obtain ⟨inside, -⟩ := List.getElem?_eq_some_iff.1 stands
  constructor
  · intro member
    obtain ⟨i, there⟩ := mem_iff_getElem?.1 member
    rw [getElem?_set] at there
    split_ifs at there with same
    · exact .inl (Option.some.inj there)
    · refine .inr ⟨mem_of_getElem? there, ?_⟩
      intro equal
      rw [equal] at stands
      exact same (distinct idx i key value value stands there)
  · rintro (rfl | ⟨member, other⟩)
    · exact mem_set inside _
    · obtain ⟨i, there⟩ := mem_iff_getElem?.1 member
      have apart : idx ≠ i := by
        rintro rfl
        rw [stands] at there
        exact other (Option.some.inj there)
      refine mem_iff_getElem?.2 ⟨i, ?_⟩
      rw [getElem?_set_ne apart, there]

/-- How a count changes when a slot gets a new content. -/
theorem countP_set_add (p : Slot Key Value → Bool) (slot : Slot Key Value)
    {old : Slot Key Value} (stands : slots[idx]? = some old) :
    (slots.set idx slot).countP p + (if p old then 1 else 0) =
      slots.countP p + (if p slot then 1 else 0) := by
  obtain ⟨inside, rfl⟩ := List.getElem?_eq_some_iff.1 stands
  have counted : p slots[idx] = true → 0 < slots.countP p :=
    fun holds => List.countP_pos_iff.2 ⟨_, getElem_mem inside, holds⟩
  rw [countP_set inside]
  split_ifs at counted ⊢ <;> grind

theorem empty_mem_of_count_lt
    (room : slots.countP Slot.isOccupied + slots.countP Slot.isDeleted < slots.length) :
    .empty ∈ slots := by
  induction slots with
  | nil => simp at room
  | cons first slots ih =>
    cases first with
    | empty => exact mem_cons_self
    | deleted | occupied k v =>
      refine mem_cons_of_mem _ (ih ?_)
      simp only [countP_cons, Slot.isOccupied, Slot.isDeleted, length_cons] at room
      simp at room
      omega

theorem Distinct.nodup (distinct : Distinct slots) : ((pairs slots).map Prod.fst).Nodup := by
  rw [List.Nodup, pairwise_map, pairs, pairwise_filterMap, pairwise_iff_getElem]
  intro i j first second before pair here other there same
  cases stands : slots[i] with
  | empty | deleted => simp [stands, Slot.pair?] at here
  | occupied k v =>
    cases also : slots[j] with
    | empty | deleted => simp [also, Slot.pair?] at there
    | occupied k' w =>
      simp only [stands, Slot.pair?, Option.some.injEq] at here
      simp only [also, Slot.pair?, Option.some.injEq] at there
      subst here there
      obtain rfl : k = k' := same
      have equal := distinct i j k v w (by rw [getElem?_eq_getElem first, stands])
        (by rw [getElem?_eq_getElem second, also])
      omega

/-! ## The search for a key -/

variable [DecidableEq Key]

/-- One visit of the search: found, missing, or go on. -/
def look (slots : List (Slot Key Value)) (key : Key) (idx : Nat) : Option (Option Nat) :=
  match slots[idx]? with
  | some (.occupied k _) => if k = key then some (some idx) else none
  | some .deleted => none
  | _ => some none

theorem look_found (stands : slots[idx]? = some (.occupied key value)) :
    look slots key idx = some (some idx) := by
  simp [look, stands]

theorem of_look_found {i : Nat} (found : look slots key idx = some (some i)) :
    i = idx ∧ ∃ value, slots[idx]? = some (.occupied key value) := by
  unfold look at found
  split at found
  next k value stands =>
    split at found
    next same =>
      cases found
      exact ⟨rfl, value, same ▸ stands⟩
    next => cases found
  next => cases found
  next => cases found

theorem look_eq_none_iff (inside : idx < slots.length) : look slots key idx = none ↔
      slots[idx]? ≠ some .empty ∧ ∀ value, slots[idx]? ≠ some (.occupied key value) := by
  rw [look, getElem?_eq_getElem inside]
  cases slots[idx] <;> simp

variable {start : Nat}

theorem scan_finds (chained : Chained home slots) (distinct : Distinct slots)
    (inside : home key < slots.length) (stands : slots[idx]? = some (.occupied key value)) :
    scan (look slots key) (succMod slots.length) slots.length (home key) = some (some idx) := by
  obtain ⟨d, bound, rfl, before⟩ := chained idx key value stands
  refine scan_eq_some inside bound (look_found stands) ?_
  intro j earlier
  have within : (home key + j) % slots.length < slots.length := Nat.mod_lt _ (by omega)
  rw [look_eq_none_iff within]
  refine ⟨before j earlier, ?_⟩
  intro other also
  have same := offset_injective (by omega) bound (distinct _ _ key _ _ also stands)
  omega

/-- The search for a key that does not stand in the table ends at an empty slot. -/
theorem scan_misses (inside : home key < slots.length) (space : .empty ∈ slots)
    (absent : ∀ value, .occupied key value ∉ slots) :
    scan (look slots key) (succMod slots.length) slots.length (home key) = some none := by
  obtain ⟨target, bound, free⟩ := mem_iff_getElem.1 space
  have decides : (look slots key target).isSome = true := by
    rw [look, getElem?_eq_getElem bound, free]
    rfl
  obtain ⟨result, found⟩ := scan_isSome inside bound decides
  obtain ⟨i, -, decided, -⟩ := of_scan inside found
  cases result with
  | none => exact found
  | some target =>
    obtain ⟨-, value, stands⟩ := of_look_found decided
    exact absurd (mem_of_getElem? stands) (absent value)

end Table

end GuardSarm.Probing
