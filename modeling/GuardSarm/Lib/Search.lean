import Mathlib

/-!
# The first decision in a list

A search asks the elements of a list in order. An element passes, decides or
raises; the first that does not pass ends the search. This is
`List.findSomeM?` for computations that may raise:

* `first_of_decides`, `first_of_raises`, `first_of_passes`: what a search
  gives when only one of the two ways to end it occurs in the list;
* `bind_ok_iff`, `bind_raises_iff`: when a computation in two parts returns and
  when it raises.
-/

namespace GuardSarm.Search

open List

variable {α β ε : Type} {ask : α → Except ε (Option β)} {xs : List α} {x : α}

section bind

variable {γ : Type} {part : Except ε β} {next : β → Except ε γ}

theorem bind_ok_iff {c : γ} : (part >>= next) = .ok c ↔ ∃ b, part = .ok b ∧ next b = .ok c := by
  cases part with
  | error e => simp [bind, Except.bind]
  | ok b => simp [bind, Except.bind]

theorem bind_raises_iff : (∃ e, (part >>= next) = .error e) ↔
    (∃ e, part = .error e) ∨ ∃ b, part = .ok b ∧ ∃ e, next b = .error e := by
  cases part with
  | error e => simp [bind, Except.bind]
  | ok b => simp [bind, Except.bind]

@[simp]
theorem pure_ok_iff {b b' : β} : (pure b : Except ε β) = .ok b' ↔ b = b' := by
  simp [pure, Except.pure]

@[simp]
theorem pure_ne_error {b : β} {e : ε} : (pure b : Except ε β) ≠ .error e := nofun

end bind

def Passes (ask : α → Except ε (Option β)) (x : α) : Prop := ask x = .ok none

def Decides (ask : α → Except ε (Option β)) (x : α) : Prop := ∃ b, ask x = .ok (some b)

def Raises (ask : α → Except ε (Option β)) (x : α) : Prop := ∃ e, ask x = .error e

theorem passes_or_decides_or_raises (ask : α → Except ε (Option β)) (x : α) :
    Passes ask x ∨ Decides ask x ∨ Raises ask x := by
  unfold Passes Decides Raises
  cases ask x with
  | error e => exact .inr (.inr ⟨e, rfl⟩)
  | ok found =>
    cases found with
    | none => exact .inl rfl
    | some b => exact .inr (.inl ⟨b, rfl⟩)

theorem first_cons_of_passes (h : Passes ask x) : (x :: xs).findSomeM? ask = xs.findSomeM? ask := by
  rw [findSomeM?_cons, h]
  rfl

theorem first_cons_of_decides {b : β} (h : ask x = .ok (some b)) :
    (x :: xs).findSomeM? ask = .ok (some b) := by
  rw [findSomeM?_cons, h]
  rfl

theorem first_cons_of_raises {e : ε} (h : ask x = .error e) :
    (x :: xs).findSomeM? ask = .error e := by
  rw [findSomeM?_cons, h]
  rfl

theorem first_of_passes (h : ∀ x ∈ xs, Passes ask x) : xs.findSomeM? ask = .ok none := by
  induction xs with
  | nil => rfl
  | cons x xs ih =>
    rw [first_cons_of_passes (h x mem_cons_self)]
    exact ih fun y member => h y (mem_cons_of_mem x member)

theorem first_of_decides (some_decides : ∃ x ∈ xs, Decides ask x)
    (none_raises : ∀ x ∈ xs, ¬Raises ask x) : ∃ b, xs.findSomeM? ask = .ok (some b) := by
  induction xs with
  | nil => simp at some_decides
  | cons x xs ih =>
    rcases passes_or_decides_or_raises ask x with passes | ⟨b, decides⟩ | raises
    · rw [first_cons_of_passes passes]
      obtain ⟨y, member, b, decides⟩ := some_decides
      have tail : y ∈ xs := by
        rcases mem_cons.mp member with rfl | tail
        · rw [Passes, decides] at passes
          cases passes
        · exact tail
      exact ih ⟨y, tail, b, decides⟩ fun z member => none_raises z (mem_cons_of_mem x member)
    · exact ⟨b, first_cons_of_decides decides⟩
    · exact absurd raises (none_raises x mem_cons_self)

theorem first_of_raises (some_raises : ∃ x ∈ xs, Raises ask x)
    (none_decides : ∀ x ∈ xs, ¬Decides ask x) : ∃ e, xs.findSomeM? ask = .error e := by
  induction xs with
  | nil => simp at some_raises
  | cons x xs ih =>
    rcases passes_or_decides_or_raises ask x with passes | decides | ⟨e, raises⟩
    · rw [first_cons_of_passes passes]
      obtain ⟨y, member, e, raises⟩ := some_raises
      have tail : y ∈ xs := by
        rcases mem_cons.mp member with rfl | tail
        · rw [Passes, raises] at passes
          cases passes
        · exact tail
      exact ih ⟨y, tail, e, raises⟩ fun z member => none_decides z (mem_cons_of_mem x member)
    · exact absurd decides (none_decides x mem_cons_self)
    · exact ⟨e, first_cons_of_raises raises⟩

/-- What a caller hears who takes an exception for a no, and `fallback` for a search without a
decision. -/
def answer (fallback : Bool) : Except ε (Option β) → Bool
  | .error _ => false
  | .ok (some _) => true
  | .ok none => fallback

section answer

variable {fallback : Bool}

theorem answer_of_decides (some_decides : ∃ x ∈ xs, Decides ask x)
    (none_raises : ∀ x ∈ xs, ¬Raises ask x) : answer fallback (xs.findSomeM? ask) = true := by
  obtain ⟨b, found⟩ := first_of_decides some_decides none_raises
  rw [found, answer]

theorem answer_of_raises (some_raises : ∃ x ∈ xs, Raises ask x)
    (none_decides : ∀ x ∈ xs, ¬Decides ask x) : answer fallback (xs.findSomeM? ask) = false := by
  obtain ⟨e, raised⟩ := first_of_raises some_raises none_decides
  rw [raised, answer]

theorem answer_of_passes (h : ∀ x ∈ xs, Passes ask x) :
    answer fallback (xs.findSomeM? ask) = fallback := by
  rw [first_of_passes h, answer]

/-- Some order puts the deciding element first, another the raising one. -/
theorem exists_perm_answers (fallback : Bool) (some_decides : ∃ x ∈ xs, Decides ask x)
    (some_raises : ∃ x ∈ xs, Raises ask x) :
    (∃ ys : List α, ys.Perm xs ∧ answer fallback (ys.findSomeM? ask) = true) ∧
      ∃ ys : List α, ys.Perm xs ∧ answer fallback (ys.findSomeM? ask) = false := by
  obtain ⟨x, member, b, decides⟩ := some_decides
  obtain ⟨y, other, e, raises⟩ := some_raises
  constructor
  · obtain ⟨before, after, rfl⟩ := append_of_mem member
    exact ⟨x :: (before ++ after), perm_middle.symm,
      by rw [first_cons_of_decides decides, answer]⟩
  · obtain ⟨before, after, rfl⟩ := append_of_mem other
    exact ⟨y :: (before ++ after), perm_middle.symm,
      by rw [first_cons_of_raises raises, answer]⟩

/-- **The answer of a search is a property of the set of elements** exactly when the list does not
hold both an element that decides and one that raises. -/
theorem answer_perm_iff : (∀ ys : List α, ys.Perm xs →
      answer fallback (ys.findSomeM? ask) = answer fallback (xs.findSomeM? ask)) ↔
      ¬((∃ x ∈ xs, Decides ask x) ∧ ∃ x ∈ xs, Raises ask x) := by
  constructor
  · rintro same ⟨some_decides, some_raises⟩
    obtain ⟨⟨ys, perm, yes⟩, zs, perm', no⟩ :=
      exists_perm_answers fallback some_decides some_raises
    rw [same ys perm, ← same zs perm', no] at yes
    cases yes
  · intro not_both ys perm
    by_cases some_decides : ∃ x ∈ xs, Decides ask x
    · have none_raises : ∀ x ∈ xs, ¬Raises ask x := fun x member raises =>
        not_both ⟨some_decides, x, member, raises⟩
      rw [answer_of_decides some_decides none_raises]
      apply answer_of_decides
      · simpa only [perm.mem_iff] using some_decides
      · simpa only [perm.mem_iff] using none_raises
    · have none_decides : ∀ x ∈ xs, ¬Decides ask x := fun x member decides =>
        some_decides ⟨x, member, decides⟩
      by_cases some_raises : ∃ x ∈ xs, Raises ask x
      · rw [answer_of_raises some_raises none_decides]
        apply answer_of_raises
        · simpa only [perm.mem_iff] using some_raises
        · simpa only [perm.mem_iff] using none_decides
      · have passes : ∀ x ∈ xs, Passes ask x := fun x member =>
          (passes_or_decides_or_raises ask x).resolve_right fun other =>
            other.elim (none_decides x member) fun raises => some_raises ⟨x, member, raises⟩
        rw [answer_of_passes passes]
        apply answer_of_passes
        simpa only [perm.mem_iff] using passes

end answer

end GuardSarm.Search
