import GuardSarm.Lib.Text

/-!
# Replacing every occurrence

`replaceAll` replaces the first occurrence and calls itself on the whole
rewritten text, so it is a rewriting system and not a pass over the text.
-/

namespace GuardSarm.Base

open List

/-- `std::string::find`. -/
def find (text toSearch : Text) : Option Nat := text.tails.findIdx? toSearch.isPrefixOf

/-- The guard of `replaceAll`. -/
def refuses (toSearch toReplace : Text) : Bool :=
  toSearch.isEmpty || toSearch == toReplace || (find toReplace toSearch).isSome

/-- The text that `replaceAll` leaves and the positions, each in the text of its time, at
which it replaced; `none` if it has not returned after `calls` calls. -/
def replaceAll (toSearch toReplace : Text) : Nat → Text → Option (Text × List Nat)
  | 0, _ => none
  | calls + 1, data =>
    if refuses toSearch toReplace then some (data, []) else
    match find data toSearch with
    | none => some (data, [])
    | some pos =>
      (replaceAll toSearch toReplace calls
        (data.take pos ++ toReplace ++ data.drop (pos + toSearch.length))).map
          fun (text, positions) => (text, pos :: positions)

/-- One pass over the data with the same results. `done` is the text written so far and the
number counts the characters that still belong to the last occurrence. -/
def pass (toSearch toReplace : Text) : Nat → Text → Text → Text × List Nat
  | _, done, [] => (done, [])
  | skip + 1, done, _ :: rest => pass toSearch toReplace skip done rest
  | 0, done, c :: rest =>
    if toSearch.isPrefixOf (c :: rest) then
      let (text, positions) := pass toSearch toReplace (toSearch.length - 1) (done ++ toReplace) rest
      (text, done.length :: positions)
    else pass toSearch toReplace 0 (done ++ [c]) rest

/-- No occurrence in the text begins before the position. -/
def ClearBefore (toSearch text : Text) (position : Nat) : Prop :=
  ∀ i < position, ¬ toSearch <+: text.drop i

/-- Along the pass, replaced text never completes an occurrence with what is before or
behind it. -/
def Undisturbed (toSearch toReplace : Text) : Nat → Text → Text → Prop
  | _, done, [] => ClearBefore toSearch done done.length
  | skip + 1, done, _ :: rest => Undisturbed toSearch toReplace skip done rest
  | 0, done, c :: rest =>
    if toSearch.isPrefixOf (c :: rest) then
      ClearBefore toSearch (done ++ c :: rest) done.length ∧
        Undisturbed toSearch toReplace (toSearch.length - 1) (done ++ toReplace) rest
    else Undisturbed toSearch toReplace 0 (done ++ [c]) rest

variable {toSearch toReplace : Text}

theorem find_eq_some_iff {text : Text} {pos : Nat} : find text toSearch = some pos ↔
      pos ≤ text.length ∧ toSearch <+: text.drop pos ∧ ClearBefore toSearch text pos := by
  simp only [find, findIdx?_eq_some_iff_getElem, length_tails, getElem_tails,
    isPrefixOf_iff_prefix, ClearBefore, Order.lt_add_one_iff]
  constructor
  · rintro ⟨bound, found, before⟩
    exact ⟨bound, found, fun i small => by simpa using before i small⟩
  · rintro ⟨bound, found, before⟩
    exact ⟨bound, found, fun i small => by simpa using before i small⟩

theorem find_eq_none_iff {text : Text} (given : toSearch ≠ []) :
    find text toSearch = none ↔ ClearBefore toSearch text text.length := by
  simp only [find, findIdx?_eq_none_iff, mem_tails, ClearBefore]
  constructor
  · intro absent i _ occurs
    have refuted := absent _ (drop_suffix i text)
    rw [ isPrefixOf_iff_prefix.mpr occurs] at refuted
    cases refuted
  · intro clear part behind
    obtain ⟨before, rfl⟩ := behind
    by_contra occurs
    rw [Bool.not_eq_false, isPrefixOf_iff_prefix] at occurs
    have nonempty : part ≠ [] := fun none => given (prefix_nil.mp (none ▸ occurs))
    refine clear before.length ?_ (by simpa using occurs)
    have := length_pos_of_ne_nil nonempty
    rw [length_append]
    omega

/-- At an occurrence the next replacement is the pass's, exactly if none begins before. -/
theorem find_append_iff {done rest : Text} (occurs : toSearch <+: rest) :
    find (done ++ rest) toSearch = some done.length ↔
      ClearBefore toSearch (done ++ rest) done.length := by
  rw [find_eq_some_iff, drop_left]
  exact ⟨fun found => found.2.2, fun clear => ⟨by simp, occurs, clear⟩⟩

theorem find_append_isSome {done rest : Text} (occurs : toSearch <+: rest) :
    ∃ pos, find (done ++ rest) toSearch = some pos := by
  rw [← Option.isSome_iff_exists, find, findIdx?_isSome, any_eq_true]
  exact ⟨rest, (mem_tails _ _).mpr (suffix_append _ _),
    isPrefixOf_iff_prefix.mpr occurs⟩

/-- The search and the pass, from any point of the pass: the text of the time is what is
written so far and what the pass has still to read. -/
theorem replaceAll_iff_undisturbed_from (admitted : refuses toSearch toReplace = false)
    (skip : Nat) (done rest : Text) :
    (∃ calls, replaceAll toSearch toReplace calls (done ++ rest.drop skip) =
        some (pass toSearch toReplace skip done rest)) ↔
      Undisturbed toSearch toReplace skip done rest := by
  have given : toSearch ≠ [] := by
    rintro rfl
    simp [refuses] at admitted
  induction rest generalizing skip done with
  | nil =>
    simp only [pass, Undisturbed, drop_nil, append_nil]
    rw [← find_eq_none_iff given]
    constructor
    · rintro ⟨calls, returned⟩
      cases calls with
      | zero => cases returned
      | succ calls =>
        simp only [replaceAll, admitted, Bool.false_eq_true, if_false] at returned
        cases found : find done toSearch with
        | none => rfl
        | some pos => simp [found] at returned
    · intro none
      exact ⟨1, by simp [replaceAll, admitted, none]⟩
  | cons c rest ih =>
    cases skip with
    | succ skip => exact ih skip done
    | zero =>
      simp only [pass, Undisturbed, drop_zero]
      by_cases occurs : toSearch.isPrefixOf (c :: rest) = true
      · rw [if_pos occurs, if_pos occurs]
        replace occurs := isPrefixOf_iff_prefix.mp occurs
        -- the text after the pass's own replacement
        have next : (done ++ c :: rest).take done.length ++ toReplace ++
            (done ++ c :: rest).drop (done.length + toSearch.length) =
            (done ++ toReplace) ++ rest.drop (toSearch.length - 1) := by
          obtain ⟨d, others, rfl⟩ := exists_cons_of_ne_nil given
          simp [← drop_drop]
        have later := ih (toSearch.length - 1) (done ++ toReplace)
        rw [← find_append_iff occurs]
        constructor
        · rintro ⟨calls, returned⟩
          cases calls with
          | zero => cases returned
          | succ calls =>
            obtain ⟨pos, found⟩ := @find_append_isSome _ done _ occurs
            simp only [replaceAll, admitted, Bool.false_eq_true, if_false, found,
              Option.map_eq_some_iff, Prod.mk.injEq, List.cons.injEq, Prod.exists] at returned
            obtain ⟨text, positions, replaced, rfl, rfl, rfl⟩ := returned
            exact ⟨found, later.mp ⟨calls, next ▸ replaced⟩⟩
        · rintro ⟨found, undisturbed⟩
          obtain ⟨calls, replaced⟩ := later.mpr undisturbed
          refine ⟨calls + 1, ?_⟩
          simp only [replaceAll, admitted, Bool.false_eq_true, if_false, found, next, replaced,
            Option.map_some]
      · rw [if_neg occurs, if_neg occurs]
        simpa using ih 0 (done ++ [c])

end GuardSarm.Base
