import GuardSarm.Lib.Text

/-!
# Parser combinators

A parser reads a value off the front of a text, or fails. Alternatives are tried
in order and are final: what follows a repetition is never tried with fewer
repetitions. A repetition goes on until its parser fails. The number of rounds is
bounded by the length of the text, which loses nothing where every round
progresses.

* `many_of_repeats` and `many1_of_repeats`: what a repetition reads, round by
  round.
* `many1_congr`: a repetition calls its parser on its own text and shorter ones.
-/

namespace GuardSarm.Parsec

open Option

abbrev Parser (α : Type) := Text → Option (α × Text)

variable {α β γ : Type}

def satisfy (accepted : Char → Bool) : Parser Char
  | [] => none
  | c :: rest => if accepted c then some (c, rest) else none

def eof : Parser Unit := fun text => if text = [] then some ((), []) else none

/-- `absent` is the value of a type that is initialised with nothing. -/
def opt (absent : α) (p : Parser α) : Parser α := fun text => some ((p text).getD (absent, text))

def fmap (f : α → β) (p : Parser α) : Parser β := fun text =>
  (p text).map fun read => (f read.1, read.2)

/-- `l | r` -/
def either (l r : Parser α) : Parser α := fun text => (l text).or (r text)

/-- `l & r` -/
def both (l : Parser α) (r : Parser β) : Parser (α × β) := fun text =>
  (l text).bind fun first => (r first.2).map fun second => ((first.1, second.1), second.2)

/-- `l >> r` -/
def second (l : Parser α) (r : Parser β) : Parser β := fmap Prod.snd (both l r)

/-- `l << r` -/
def first (l : Parser α) (r : Parser β) : Parser α := fmap Prod.fst (both l r)

/-- The loop of a repetition, for at most `rounds` rounds. -/
def collect (p : Parser α) : Nat → Text → List α × Text
  | 0, text => ([], text)
  | rounds + 1, text =>
    match p text with
    | none => ([], text)
    | some (value, rest) =>
      let (values, rest) := collect p rounds rest
      (value :: values, rest)

def many (p : Parser α) : Parser (List α) := fun text => some (collect p text.length text)

def many1 (p : Parser α) : Parser (List α) :=
  fmap (fun read => read.1 :: read.2) (both p (many p))

section reading

variable {p q : Parser α} {r : Parser β} {text middle rest : Text} {value : α}

variable {accepted : Char → Bool}

theorem satisfy_cons {c : Char} (holds : accepted c = true) :
    satisfy accepted (c :: rest) = some (c, rest) := by
  simp [satisfy, holds]

theorem satisfy_fails (refused : ∀ c ∈ text.head?, accepted c = false) :
    satisfy accepted text = none := by
  cases text with
  | nil => rfl
  | cons c rest => simp [satisfy, refused c (by simp)]

variable {f : α → β}

theorem fmap_of (read : p text = some (value, rest)) : fmap f p text = some (f value, rest) := by
  simp [fmap, read]

theorem fmap_fails (fails : p text = none) : fmap f p text = none := by
  simp [fmap, fails]

theorem opt_of {absent : α} (read : p text = some (value, rest)) :
    opt absent p text = some (value, rest) := by
  simp [opt, read]

theorem opt_fails {absent : α} (fails : p text = none) :
    opt absent p text = some (absent, text) := by
  simp [opt, fails]

theorem either_left (read : p text = some (value, rest)) :
    either p q text = some (value, rest) := by
  simp [either, read]

theorem either_right (fails : p text = none) : either p q text = q text := by
  simp [either, fails]

theorem both_of {other : β} (read : p text = some (value, middle))
    (next : r middle = some (other, rest)) : both p r text = some ((value, other), rest) := by
  simp [both, read, next]

theorem both_fails (fails : p text = none) : both p r text = none := by
  simp [both, fails]

theorem both_fails_right (read : p text = some (value, middle)) (fails : r middle = none) :
    both p r text = none := by
  simp [both, read, fails]

theorem second_of {other : β} (read : p text = some (value, middle))
    (next : r middle = some (other, rest)) : second p r text = some (other, rest) :=
  fmap_of (both_of read next)

theorem first_of {other : β} (read : p text = some (value, middle))
    (next : r middle = some (other, rest)) : first p r text = some (value, rest) :=
  fmap_of (both_of read next)

theorem second_fails (fails : p text = none) : second p r text = none :=
  fmap_fails (both_fails fails)

theorem first_fails (fails : p text = none) : first p r text = none :=
  fmap_fails (both_fails fails)

theorem first_fails_right (read : p text = some (value, middle)) (fails : r middle = none) :
    first p r text = none :=
  fmap_fails (both_fails_right read fails)

end reading

section repetition

variable {p q : Parser α} {r : Parser β} {text rest : Text} {values : List α}

/-- The rounds of a repetition: each reads a value and leaves less text, and the parser fails on
what is left at the end. -/
inductive Repeats (p : Parser α) : Text → List α → Text → Prop
  | stop {text : Text} : p text = none → Repeats p text [] text
  | round {text middle rest : Text} {value : α} {values : List α} :
      p text = some (value, middle) → middle.length < text.length →
      Repeats p middle values rest → Repeats p text (value :: values) rest

theorem collect_of_repeats (repeats : Repeats p text values rest) :
    ∀ rounds, text.length ≤ rounds → collect p rounds text = (values, rest) := by
  induction repeats with
  | @stop text fails =>
    intro rounds enough
    cases rounds with
    | zero => rfl
    | succ rounds => simp [collect, fails]
  | round read shorter _ ih =>
    intro rounds enough
    cases rounds with
    | zero => omega
    | succ rounds => simp [collect, read, ih rounds (by omega)]

theorem many_of_repeats (repeats : Repeats p text values rest) :
    many p text = some (values, rest) := by
  rw [many, collect_of_repeats repeats _ le_rfl]

theorem many1_of_repeats (repeats : Repeats p text values rest) (some : values ≠ []) :
    many1 p text = Option.some (values, rest) := by
  cases repeats with
  | stop => exact absurd rfl some
  | round read _ later => exact fmap_of (both_of read (many_of_repeats later))

theorem repeats_satisfy {chars : Text}
    (holds : ∀ c ∈ chars, accepted c = true) (refused : ∀ c ∈ rest.head?, accepted c = false) :
    Repeats (satisfy accepted) (chars ++ rest) chars rest := by
  induction chars with
  | nil => exact .stop (satisfy_fails refused)
  | cons c chars ih =>
    exact .round (satisfy_cons (holds c (by simp))) (by simp) (ih fun d member => holds d (by simp [member]))

theorem many1_fails (fails : p text = none) : many1 p text = none :=
  fmap_fails (both_fails fails)

/-- Every successful reading leaves a shorter text. -/
def Progresses (p : Parser α) : Prop :=
  ∀ text value rest, p text = some (value, rest) → rest.length < text.length

def NonGrowing (p : Parser α) : Prop :=
  ∀ text value rest, p text = some (value, rest) → rest.length ≤ text.length

theorem Progresses.nonGrowing (progresses : Progresses p) : NonGrowing p :=
  fun text value rest read => (progresses text value rest read).le

theorem progresses_satisfy (accepted : Char → Bool) : Progresses (satisfy accepted) := by
  intro text value rest read
  cases text with
  | nil => cases read
  | cons c text =>
    rw [satisfy] at read
    split at read
    · cases read; simp
    · cases read

theorem of_fmap {value : β} (read : fmap f p text = some (value, rest)) :
    ∃ inner, p text = some (inner, rest) ∧ f inner = value := by
  obtain ⟨⟨inner, left⟩, found, same⟩ := map_eq_some_iff.mp read
  cases same
  exact ⟨inner, found, rfl⟩

theorem progresses_fmap (progresses : Progresses p) : Progresses (fmap f p) := by
  intro text value rest read
  obtain ⟨inner, read, -⟩ := of_fmap read
  exact progresses _ _ _ read

theorem nonGrowing_fmap (nonGrowing : NonGrowing p) : NonGrowing (fmap f p) := by
  intro text value rest read
  obtain ⟨inner, read, -⟩ := of_fmap read
  exact nonGrowing _ _ _ read

theorem of_either {value : α} (read : either p q text = some (value, rest)) :
    p text = some (value, rest) ∨ q text = some (value, rest) := by
  obtain read | ⟨-, read⟩ := or_eq_some_iff.mp read
  · exact .inl read
  · exact .inr read

theorem of_both {value : α × β} (read : both p r text = some (value, rest)) :
    ∃ middle, p text = some (value.1, middle) ∧ r middle = some (value.2, rest) := by
  obtain ⟨⟨one, middle⟩, left, read⟩ := bind_eq_some_iff.mp read
  obtain ⟨⟨two, last⟩, right, same⟩ := map_eq_some_iff.mp read
  cases same
  exact ⟨middle, left, right⟩

theorem progresses_either (left : Progresses p) (right : Progresses q) :
    Progresses (either p q) := by
  intro text value rest read
  obtain read | read := of_either read
  · exact left _ _ _ read
  · exact right _ _ _ read

theorem nonGrowing_opt {absent : α} (nonGrowing : NonGrowing p) : NonGrowing (opt absent p) := by
  intro text value rest read
  cases found : p text with
  | none => rw [opt_fails found] at read; cases read; exact le_rfl
  | some result =>
    rw [opt_of found] at read
    cases read
    exact nonGrowing _ _ _ found

theorem nonGrowing_both (left : NonGrowing p) (right : NonGrowing r) : NonGrowing (both p r) := by
  intro text value rest read
  obtain ⟨middle, first, next⟩ := of_both read
  exact (right _ _ _ next).trans (left _ _ _ first)

theorem progresses_both (left : Progresses p) (right : NonGrowing r) : Progresses (both p r) := by
  intro text value rest read
  obtain ⟨middle, first, next⟩ := of_both read
  exact (right _ _ _ next).trans_lt (left _ _ _ first)

theorem progresses_second (left : Progresses p) (right : NonGrowing r) : Progresses (second p r) :=
  progresses_fmap (progresses_both left right)

theorem progresses_first (left : Progresses p) (right : NonGrowing r) : Progresses (first p r) :=
  progresses_fmap (progresses_both left right)

theorem nonGrowing_many (nonGrowing : NonGrowing p) : NonGrowing (many p) := by
  have rounds : ∀ n text, (collect p n text).2.length ≤ text.length := by
    intro n
    induction n with
    | zero => intro text; exact le_rfl
    | succ n ih =>
      intro text
      rw [collect]
      split
      · exact le_rfl
      · rename_i value middle read
        exact (ih middle).trans (nonGrowing _ _ _ read)
  intro text values rest read
  have bound := rounds text.length text
  rwa [Option.some.inj read] at bound

theorem progresses_many1 (progresses : Progresses p) : Progresses (many1 p) :=
  progresses_fmap (progresses_both progresses (nonGrowing_many progresses.nonGrowing))

/-- The bound on the rounds is never met where every round progresses: the parser fails on what
is left. -/
theorem repeats_many (progresses : Progresses p) (text : Text) :
    ∃ values rest, many p text = some (values, rest) ∧ Repeats p text values rest := by
  induction length : text.length using Nat.strong_induction_on generalizing text with
  | _ n ih =>
    cases read : p text with
    | none => exact ⟨[], text, many_of_repeats (.stop read), .stop read⟩
    | some result =>
      obtain ⟨value, middle⟩ := result
      have shorter := progresses _ _ _ read
      obtain ⟨values, rest, -, later⟩ := ih _ (length ▸ shorter) middle rfl
      have repeats := Repeats.round read shorter later
      exact ⟨_, _, many_of_repeats repeats, repeats⟩

theorem of_many1 (progresses : Progresses p) (read : many1 p text = some (values, rest)) :
    values ≠ [] ∧ Repeats p text values rest := by
  obtain ⟨⟨value, later⟩, pair, rfl⟩ := of_fmap read
  obtain ⟨middle, first, next⟩ := of_both pair
  obtain ⟨values, rest, collected, repeats⟩ := repeats_many progresses middle
  cases next.symm.trans collected
  exact ⟨List.cons_ne_nil _ _, .round first (progresses _ _ _ first) repeats⟩

theorem fmap_congr (same : p text = q text) : fmap f p text = fmap f q text := by
  rw [fmap, fmap, same]

theorem both_congr_left (same : p text = q text) : both p r text = both q r text := by
  rw [both, both, same]

theorem both_congr {other : Parser β}
    (same : ∀ value middle, p text = some (value, middle) → r middle = other middle) :
    both p r text = both p other text := by
  cases read : p text with
  | none => rw [both_fails read, both_fails read]
  | some result => simp only [both, read, bind_some, same _ _ read]

/-- A repetition calls its parser on its own text and on shorter ones. -/
theorem Repeats.congr (repeats : Repeats p text values rest)
    (same : ∀ other : Text, other.length ≤ text.length → p other = q other) :
    Repeats q text values rest := by
  induction repeats with
  | stop fails => exact .stop (by rw [← same _ le_rfl, fails])
  | round read shorter _ ih =>
    have later := ih fun other small => same other (small.trans shorter.le)
    exact .round (by rw [← same _ le_rfl, read]) shorter later

theorem many1_congr (progresses : Progresses p)
    (same : ∀ other : Text, other.length ≤ text.length → p other = q other) :
    many1 p text = many1 q text := by
  cases read : p text with
  | none => rw [many1_fails read, many1_fails (same text le_rfl ▸ read)]
  | some result =>
    obtain ⟨values, rest, collected, -⟩ := repeats_many progresses result.2
    have found : many1 p text = some (result.1 :: values, rest) :=
      fmap_of (both_of read collected)
    obtain ⟨filled, repeats⟩ := of_many1 progresses found
    rw [found, many1_of_repeats (repeats.congr same) filled]

end repetition

end GuardSarm.Parsec
