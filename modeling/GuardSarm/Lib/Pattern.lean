import Mathlib

/-!
# Sequences of repeated characters

A pattern is a list of items, each a set of characters with the number of
times one of them has to occur. `Matches` is its language. `Here` says how far
a matcher has come: what it has read of a text, from some place on, fits what
stands before the rest of the pattern. A matcher is sound when every step
keeps `Here`:

* `Here.consume`, `Here.skip`: a step over a character, and one over a part of
  the pattern;
* `Here.done`: a rest that matches nothing more completes an occurrence.
-/

namespace GuardSarm.Pattern

open List

variable {α : Type}

inductive Times where
  | once | plus | star
  deriving DecidableEq

structure Item (α : Type) where
  accepts : α → Prop
  times : Times

inductive Matches : List (Item α) → List α → Prop where
  | nil : Matches [] []
  | once {accepts : α → Prop} {items : List (Item α)} {x : α} {w : List α} (hx : accepts x)
      (h : Matches items w) : Matches (⟨accepts, .once⟩ :: items) (x :: w)
  | plus {accepts : α → Prop} {items : List (Item α)} {x : α} {w : List α} (hx : accepts x)
      (h : Matches (⟨accepts, .star⟩ :: items) w) : Matches (⟨accepts, .plus⟩ :: items) (x :: w)
  | starNil {accepts : α → Prop} {items : List (Item α)} {w : List α} (h : Matches items w) :
      Matches (⟨accepts, .star⟩ :: items) w
  | starCons {accepts : α → Prop} {items : List (Item α)} {x : α} {w : List α} (hx : accepts x)
      (h : Matches (⟨accepts, .star⟩ :: items) w) : Matches (⟨accepts, .star⟩ :: items) (x :: w)

theorem Matches.star_of_plus {accepts : α → Prop} {items : List (Item α)} {w : List α}
    (h : Matches (⟨accepts, .plus⟩ :: items) w) : Matches (⟨accepts, .star⟩ :: items) w := by
  cases h with
  | plus hx h => exact .starCons hx h

/-- The second item accepts more. -/
def Item.Narrower (i i' : Item α) : Prop := i.times = i'.times ∧ ∀ x, i.accepts x → i'.accepts x

theorem Matches.mono {items items' : List (Item α)} {w : List α} (h : Matches items w)
    (weaker : List.Forall₂ Item.Narrower items items') : Matches items' w := by
  induction h generalizing items' with
  | nil =>
    cases weaker
    exact .nil
  | once hx _ ih =>
    obtain _ | @⟨_, ⟨accepts', _⟩, _, _, ⟨rfl, wider⟩, rest⟩ := weaker
    exact .once (wider _ hx) (ih rest)
  | plus hx _ ih =>
    obtain _ | @⟨_, ⟨accepts', _⟩, _, _, ⟨rfl, wider⟩, rest⟩ := weaker
    exact .plus (wider _ hx) (ih (.cons ⟨rfl, wider⟩ rest))
  | starNil _ ih =>
    obtain _ | @⟨_, ⟨accepts', _⟩, _, _, ⟨rfl, wider⟩, rest⟩ := weaker
    exact .starNil (ih rest)
  | starCons hx _ ih =>
    obtain _ | @⟨_, ⟨accepts', _⟩, _, _, ⟨rfl, wider⟩, rest⟩ := weaker
    exact .starCons (wider _ hx) (ih (.cons ⟨rfl, wider⟩ rest))

/-- The text holds a word of the language: at its start when `begins`, at its end when `ends`. -/
def Occurs (items : List (Item α)) (begins ends : Bool) (text : List α) : Prop :=
  ∃ before word after, text = before ++ word ++ after ∧ Matches items word ∧
    (begins = true → before = []) ∧ (ends = true → after = [])

theorem Occurs.mono {items items' : List (Item α)} {begins ends : Bool} {text : List α}
    (h : Occurs items begins ends text) (weaker : List.Forall₂ Item.Narrower items items') :
    Occurs items' begins ends text := by
  obtain ⟨before, word, after, split, matched, anchored⟩ := h
  exact ⟨before, word, after, split, matched.mono weaker, anchored⟩

theorem Matches.exists_mem {items : List (Item α)} {w : List α} (h : Matches items w) {i : Item α}
    (member : i ∈ items) (needed : i.times ≠ .star) : ∃ x ∈ w, i.accepts x := by
  induction h with
  | nil => cases member
  | once hx _ ih =>
    cases member with
    | head => exact ⟨_, mem_cons_self, hx⟩
    | tail _ member =>
      obtain ⟨x, found, accepted⟩ := ih member
      exact ⟨x, mem_cons_of_mem _ found, accepted⟩
  | plus hx _ ih =>
    cases member with
    | head => exact ⟨_, mem_cons_self, hx⟩
    | tail _ member =>
      obtain ⟨x, found, accepted⟩ := ih (mem_cons_of_mem _ member)
      exact ⟨x, mem_cons_of_mem _ found, accepted⟩
  | starNil _ ih =>
    cases member with
    | head => exact absurd rfl needed
    | tail _ member => exact ih member
  | starCons _ _ ih =>
    obtain ⟨x, found, accepted⟩ := ih member
    exact ⟨x, mem_cons_of_mem _ found, accepted⟩

/-- Up to `rest` the text has been read, from some place on, as a pattern `all` up to `items`. -/
def Here (all : List (Item α)) (begins : Bool) (text : List α) (items : List (Item α))
    (rest : List α) : Prop :=
  ∃ before word, text = before ++ word ++ rest ∧ (begins = true → before = []) ∧
    ∀ w, Matches items w → Matches all (word ++ w)

variable {all items items' : List (Item α)} {begins ends : Bool} {text rest : List α} {x : α}

theorem Here.start {before : List α} (split : text = before ++ rest)
    (anchored : begins = true → before = []) : Here all begins text all rest :=
  ⟨before, [], by simpa using split, anchored, fun _ h => h⟩

theorem Here.skip (h : Here all begins text items rest)
    (weaker : ∀ w, Matches items' w → Matches items w) : Here all begins text items' rest := by
  obtain ⟨before, word, split, anchored, fits⟩ := h
  exact ⟨before, word, split, anchored, fun w hw => fits w (weaker w hw)⟩

theorem Here.consume (h : Here all begins text items (x :: rest))
    (weaker : ∀ w, Matches items' w → Matches items (x :: w)) :
    Here all begins text items' rest := by
  obtain ⟨before, word, split, anchored, fits⟩ := h
  refine ⟨before, word ++ [x], by simpa using split, anchored, fun w hw => ?_⟩
  simpa using fits (x :: w) (weaker w hw)

theorem Here.done (h : Here all begins text items rest) (empty : Matches items [])
    (closed : ends = true → rest = []) : Occurs all begins ends text := by
  obtain ⟨before, word, split, anchored, fits⟩ := h
  exact ⟨before, word, rest, split, by simpa using fits [] empty, anchored, closed⟩

section repeated

variable {accepts : α → Prop}

theorem Here.first (h : Here all begins text (⟨accepts, .plus⟩ :: items) (x :: rest))
    (hx : accepts x) : Here all begins text (⟨accepts, .star⟩ :: items) rest :=
  h.consume fun _ hw => .plus hx hw

theorem Here.again (h : Here all begins text (⟨accepts, .star⟩ :: items) (x :: rest))
    (hx : accepts x) : Here all begins text (⟨accepts, .star⟩ :: items) rest :=
  h.consume fun _ hw => .starCons hx hw

theorem Here.leave (h : Here all begins text (⟨accepts, .star⟩ :: items) rest) :
    Here all begins text items rest :=
  h.skip fun _ hw => .starNil hw

theorem Here.next (h : Here all begins text (⟨accepts, .once⟩ :: items) (x :: rest))
    (hx : accepts x) : Here all begins text items rest :=
  h.consume fun _ hw => .once hx hw

theorem Here.plus_of_star (h : Here all begins text (⟨accepts, .star⟩ :: items) rest) :
    Here all begins text (⟨accepts, .plus⟩ :: items) rest :=
  h.skip fun _ hw => hw.star_of_plus

end repeated

end GuardSarm.Pattern
