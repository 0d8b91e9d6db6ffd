import Mathlib

/-!
# Memory blocks

A block of memory is the list of its elements. The copies check what C leaves to
the caller: `none` is a copy that leaves the block, or a `memcpy` whose ranges
overlap. A block that has been enlarged keeps its elements; the new ones are
whatever the allocator returns.
-/

namespace GuardSarm.Block

open List

variable {α : Type}

/-- The `n` elements from `src` on. -/
def slice (mem : List α) (src n : Nat) : List α := (mem.drop src).take n

/-- The block with the elements from `dst` on replaced. -/
def write (mem : List α) (dst : Nat) (elements : List α) : List α :=
  mem.take dst ++ elements ++ mem.drop (dst + elements.length)

/-- Copies elements from elsewhere into the block. -/
def copyIn (mem : List α) (dst : Nat) (elements : List α) : Option (List α) :=
  if dst + elements.length ≤ mem.length then some (write mem dst elements) else none

/-- Copies elements of the block to elsewhere. -/
def copyOut (mem : List α) (src n : Nat) : Option (List α) :=
  if src + n ≤ mem.length then some (slice mem src n) else none

def memmove (mem : List α) (dst src n : Nat) : Option (List α) :=
  if src + n ≤ mem.length ∧ dst + n ≤ mem.length then some (write mem dst (slice mem src n))
  else none

def memcpy (mem : List α) (dst src n : Nat) : Option (List α) :=
  if dst + n ≤ src ∨ src + n ≤ dst then memmove mem dst src n else none

def realloc (mem : List α) (n : Nat) (fresh : Nat → α) : List α :=
  mem.take n ++ (List.range (n - mem.length)).map fresh

/-! ## Elements -/

theorem getElem?_slice (mem : List α) (src n i : Nat) :
    (slice mem src n)[i]? = if i < n then mem[src + i]? else none := by
  rw [slice, getElem?_take, getElem?_drop]

variable {mem : List α}

theorem length_slice {src n : Nat} (inside : src + n ≤ mem.length) :
    (slice mem src n).length = n := by
  rw [slice, length_take, length_drop]
  omega

variable {elements : List α}

theorem length_write {dst : Nat} (inside : dst + elements.length ≤ mem.length) :
    (write mem dst elements).length = mem.length := by
  simp only [write, length_append, length_take, length_drop]
  omega

theorem getElem?_write {dst : Nat} (inside : dst + elements.length ≤ mem.length) (i : Nat) :
    (write mem dst elements)[i]? =
      if dst ≤ i ∧ i < dst + elements.length then elements[i - dst]? else mem[i]? := by
  have taken : (mem.take dst).length = dst := by
    rw [length_take]
    omega
  rw [write, append_assoc, getElem?_append, taken]
  by_cases before : i < dst
  · rw [if_pos before, if_neg (by omega), getElem?_take_of_lt before]
  · rw [if_neg before, getElem?_append]
    by_cases within : i < dst + elements.length
    · rw [if_pos (by omega), if_pos (by omega)]
    · rw [if_neg (by omega), if_neg (by omega), getElem?_drop]
      congr 1
      omega

theorem length_realloc (mem : List α) (n : Nat) (fresh : Nat → α) :
    (realloc mem n fresh).length = n := by
  simp only [realloc, length_append, length_take, length_map, length_range]
  omega

theorem getElem?_realloc {n i : Nat} (fresh : Nat → α) (kept : i < n)
    (inside : i < mem.length) : (realloc mem n fresh)[i]? = mem[i]? := by
  rw [realloc, getElem?_append_left (by rw [length_take]; omega),
    getElem?_take_of_lt kept]

/-! ## Copies that are made -/

theorem copyIn_spec {dst : Nat} (inside : dst + elements.length ≤ mem.length) :
    ∃ written, copyIn mem dst elements = some written ∧ written.length = mem.length ∧
      ∀ i, written[i]? =
        if dst ≤ i ∧ i < dst + elements.length then elements[i - dst]? else mem[i]? :=
  ⟨_, if_pos inside, length_write inside, getElem?_write inside⟩

theorem copyOut_eq {src n : Nat} (inside : src + n ≤ mem.length) :
    copyOut mem src n = some (slice mem src n) := if_pos inside

/-- Each element of the block is one that was there before. -/
theorem memmove_spec {dst src n : Nat} (source : src + n ≤ mem.length)
    (target : dst + n ≤ mem.length) :
    ∃ moved, memmove mem dst src n = some moved ∧ moved.length = mem.length ∧
      ∀ i, moved[i]? = mem[if dst ≤ i ∧ i < dst + n then src + (i - dst) else i]? := by
  have length := length_slice source
  have inside : dst + (slice mem src n).length ≤ mem.length := by omega
  refine ⟨_, if_pos ⟨source, target⟩, length_write inside, ?_⟩
  intro i
  rw [getElem?_write inside, length]
  split
  next within => rw [getElem?_slice, if_pos (by omega)]
  next => rfl

theorem memcpy_spec {dst src n : Nat} (source : src + n ≤ mem.length)
    (target : dst + n ≤ mem.length) (apart : dst + n ≤ src ∨ src + n ≤ dst) :
    ∃ copied, memcpy mem dst src n = some copied ∧ copied.length = mem.length ∧
      ∀ i, copied[i]? = mem[if dst ≤ i ∧ i < dst + n then src + (i - dst) else i]? := by
  rw [memcpy, if_pos apart]
  exact memmove_spec source target

theorem take_slice (mem : List α) (src k n : Nat) :
    (slice mem src k).take n = slice mem src (min n k) := by
  rw [slice, slice, take_take]

end GuardSarm.Block
