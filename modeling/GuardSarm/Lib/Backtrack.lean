import GuardSarm.Lib.Text

/-!
# Matching with backtracking and captures

Regular expressions as a matcher with backtracking reads them: alternatives
are tried in order, a repetition takes as much as it can, and the first way to
match a whole text gives the text of each group. `run` lists all ways, in the
order in which they are tried.

* `run_guarded`: a group that is only passed behind another one;
* `matchText_capture`, `matchText_guarded`: the same for the captures of a
  whole text.
-/

namespace GuardSarm

open List

open scoped Computability

inductive Regexp where
  | empty
  | char (accepts : Char → Bool)
  | seq (first second : Regexp)
  | alt (first second : Regexp)
  | star (body : Regexp)
  | group (index : Nat) (body : Regexp)

namespace Regexp

def opt (body : Regexp) : Regexp := .alt body .empty

def plus (body : Regexp) : Regexp := .seq body (.star body)

def cat : List Regexp → Regexp
  | [] => .empty
  | [last] => last
  | first :: rest => .seq first (cat rest)

/-- One of several expressions, the first one tried first. -/
def oneOf : List Regexp → Regexp
  | [] => .empty
  | [last] => last
  | first :: rest => .alt first (oneOf rest)

def this (c : Char) : Regexp := .char (· == c)

def digit : Regexp := .char Char.isDigit

/-- Several times the body, with a character between them. -/
def separated (separator : Char) (body : Regexp) : Regexp :=
  .seq body (.star (.seq (this separator) body))

/-- The text of each group, none for a group that was not passed. -/
abbrev Captures := Nat → Option Text

def Captures.set (captures : Captures) (index : Nat) (text : Text) : Captures := fun other =>
  if other = index then some text else captures other

/-- A repetition: again if the body read something, and then not again. -/
def repeated (body : Captures → Text → List (Captures × Text)) :
    Nat → Captures → Text → List (Captures × Text)
  | 0, captures, text => [(captures, text)]
  | fuel + 1, captures, text =>
    ((body captures text).filter fun way => way.2.length < text.length).flatMap
        (fun way => repeated body fuel way.1 way.2) ++ [(captures, text)]

/-- The ways to read the beginning of a text, each with the captures and what is left. -/
def run : Regexp → Captures → Text → List (Captures × Text)
  | .empty, captures, text => [(captures, text)]
  | .char accepts, captures, text =>
    match text with
    | c :: rest => if accepts c then [(captures, rest)] else []
    | [] => []
  | .seq first second, captures, text =>
    (run first captures text).flatMap fun way => run second way.1 way.2
  | .alt first second, captures, text => run first captures text ++ run second captures text
  | .star body, captures, text => repeated (run body) text.length captures text
  | .group index body, captures, text =>
    (run body captures text).map fun way =>
      (way.1.set index (text.take (text.length - way.2.length)), way.2)

/-- The captures of the first way to read the whole text. -/
def matchText (regexp : Regexp) (text : Text) : Option Captures :=
  ((run regexp (fun _ => none) text).find? fun way => way.2.isEmpty).map Prod.fst

/-- The texts that an expression stands for. -/
def lang : Regexp → Language Char
  | .empty => 1
  | .char accepts => {text | ∃ c, accepts c = true ∧ text = [c]}
  | .seq first second => lang first * lang second
  | .alt first second => lang first + lang second
  | .star body => (lang body)∗
  | .group _ body => lang body

def groups : Regexp → List (Nat × Regexp)
  | .empty | .char _ => []
  | .seq first second | .alt first second => groups first ++ groups second
  | .star body => groups body
  | .group index body => (index, body) :: groups body

/-- The groups that are set however the expression was matched. -/
def required : Regexp → List Nat
  | .empty | .char _ | .star _ => []
  | .seq first second => required first ++ required second
  | .alt first second => (required first).filter fun index => index ∈ required second
  | .group index body => index :: required body

/-- The captures that reading added are in the languages of their groups. -/
def Sets (known : List (Nat × Regexp)) (captures captures' : Captures) : Prop :=
  ∀ index text, captures' index = some text →
    captures index = some text ∨ ∃ body, (index, body) ∈ known ∧ text ∈ lang body

theorem Sets.refl (known : List (Nat × Regexp)) (captures : Captures) :
    Sets known captures captures := fun _ _ given => .inl given

theorem Sets.trans {known : List (Nat × Regexp)} {captures captures' captures'' : Captures}
    (first : Sets known captures captures') (second : Sets known captures' captures'') :
    Sets known captures captures'' := fun index text given =>
  (second index text given).elim (first index text) .inr

theorem Sets.mono {known more : List (Nat × Regexp)} (sub : known ⊆ more)
    {captures captures' : Captures} (sets : Sets known captures captures') :
    Sets more captures captures' := fun index text given =>
  (sets index text given).imp_right fun ⟨body, member, word⟩ => ⟨body, sub member, word⟩

variable {text : Text}

theorem mem_lang_this {c : Char} : text ∈ lang (this c) ↔ text = [c] := by
  constructor
  · rintro ⟨d, same, rfl⟩
    rw [beq_iff_eq.mp same]
  · rintro rfl
    exact ⟨c, beq_self_eq_true c, rfl⟩

theorem of_mem_lang_star_char {accepts : Char → Bool}
    (word : text ∈ lang (.star (.char accepts))) : ∀ c ∈ text, accepts c = true := by
  obtain ⟨words, rfl, all⟩ := Language.mem_kstar.mp word
  intro c member
  obtain ⟨single, among, inside⟩ := mem_flatten.mp member
  obtain ⟨d, accepted, rfl⟩ := all single among
  rwa [mem_singleton.mp inside]

theorem of_mem_lang_plus_char {accepts : Char → Bool}
    (word : text ∈ lang (plus (.char accepts))) : text ≠ [] ∧ ∀ c ∈ text, accepts c = true := by
  obtain ⟨first, ⟨c, accepted, rfl⟩, rest, words, rfl⟩ := Language.mem_mul.mp word
  refine ⟨cons_ne_nil _ _, fun d member => ?_⟩
  cases mem_cons.mp member with
  | inl same => exact same ▸ accepted
  | inr later => exact of_mem_lang_star_char words d later

theorem of_mem_lang_oneOf {bodies : List Regexp} (some : bodies ≠ [])
    (word : text ∈ lang (oneOf bodies)) : ∃ body ∈ bodies, text ∈ lang body := by
  induction bodies with
  | nil => exact absurd rfl some
  | cons body bodies ih =>
    cases bodies with
    | nil => exact ⟨body, mem_cons_self, word⟩
    | cons next bodies =>
      cases word with
      | inl first => exact ⟨body, mem_cons_self, first⟩
      | inr later =>
        obtain ⟨found, among, inside⟩ := ih (cons_ne_nil _ _) later
        exact ⟨found, mem_cons_of_mem _ among, inside⟩

theorem of_mem_lang_separated {separator : Char} {body : Regexp}
    (word : text ∈ lang (separated separator body)) :
    ∃ parts : List Text, parts ≠ [] ∧ (∀ part ∈ parts, part ∈ lang body) ∧
      text = [separator].intercalate parts := by
  obtain ⟨first, one, rest, more, rfl⟩ := Language.mem_mul.mp word
  obtain ⟨words, rfl, all⟩ := Language.mem_kstar.mp more
  clear word more
  induction words generalizing first with
  | nil => exact ⟨[first], cons_ne_nil _ _, by simpa using one, by simp⟩
  | cons next words ih =>
    obtain ⟨mark, marked, second, inside, rfl⟩ := Language.mem_mul.mp (all next mem_cons_self)
    obtain rfl := mem_lang_this.mp marked
    obtain ⟨parts, some, proper, joined⟩ :=
      ih second inside fun later among => all later (mem_cons_of_mem _ among)
    refine ⟨first :: parts, cons_ne_nil _ _, ?_, ?_⟩
    · intro part member
      cases mem_cons.mp member with
      | inl same => exact same ▸ one
      | inr later => exact proper part later
    · obtain ⟨head, tail, rfl⟩ := exists_cons_of_ne_nil some
      rw [intercalate_cons_cons, ← joined]
      simp

variable {captures : Captures} {way : Captures × Text}

/-- What a repetition reads is a sequence of what its body reads. -/
theorem repeated_sound {body : Captures → Text → List (Captures × Text)} {language : Language Char}
    {known : List (Nat × Regexp)} (sound : ∀ captures text way, way ∈ body captures text →
      ∃ read ∈ language, text = read ++ way.2 ∧ Sets known captures way.1) {fuel : Nat}
    (member : way ∈ repeated body fuel captures text) :
    ∃ read ∈ language∗, text = read ++ way.2 ∧ Sets known captures way.1 := by
  induction fuel generalizing captures text with
  | zero =>
    obtain rfl := mem_singleton.mp member
    exact ⟨[], Language.nil_mem_kstar _, rfl, .refl _ _⟩
  | succ fuel ih =>
    rcases mem_append.mp member with again | stops
    · obtain ⟨once, found, rest⟩ := mem_flatMap.mp again
      obtain ⟨read, word, split, sets⟩ := sound captures text once (mem_filter.mp found).1
      obtain ⟨later, words, split', sets'⟩ := ih rest
      refine ⟨read ++ later, ?_, by rw [split, split', append_assoc], sets.trans sets'⟩
      exact KleeneAlgebra.mul_kstar_le_kstar language (Language.append_mem_mul word words)
    · obtain rfl := mem_singleton.mp stops
      exact ⟨[], Language.nil_mem_kstar _, rfl, .refl _ _⟩

variable {regexp : Regexp}

/-- What is read is in the language, and so is what the groups hold. -/
theorem run_sound (member : way ∈ run regexp captures text) :
    ∃ read ∈ lang regexp, text = read ++ way.2 ∧ Sets (groups regexp) captures way.1 := by
  induction regexp generalizing captures text way with
  | empty =>
    obtain rfl := mem_singleton.mp member
    exact ⟨[], Language.nil_mem_one, rfl, .refl _ _⟩
  | char accepts =>
    cases text with
    | nil => cases member
    | cons c rest =>
      simp only [run] at member
      split at member
      · rename_i accepted
        obtain rfl := mem_singleton.mp member
        exact ⟨[c], ⟨c, accepted, rfl⟩, rfl, .refl _ _⟩
      · cases member
  | seq first second ih₁ ih₂ =>
    obtain ⟨middle, found, rest⟩ := mem_flatMap.mp member
    obtain ⟨read₁, word₁, split₁, sets₁⟩ := ih₁ found
    obtain ⟨read₂, word₂, split₂, sets₂⟩ := ih₂ rest
    refine ⟨read₁ ++ read₂, Language.append_mem_mul word₁ word₂, ?_, ?_⟩
    · rw [split₁, split₂, append_assoc]
    · exact (sets₁.mono (subset_append_left _ _)).trans
        (sets₂.mono (subset_append_right _ _))
  | alt first second ih₁ ih₂ =>
    rcases mem_append.mp member with found | found
    · obtain ⟨read, word, split, sets⟩ := ih₁ found
      exact ⟨read, .inl word, split, sets.mono (subset_append_left _ _)⟩
    · obtain ⟨read, word, split, sets⟩ := ih₂ found
      exact ⟨read, .inr word, split, sets.mono (subset_append_right _ _)⟩
  | star body ih => exact repeated_sound (fun _ _ _ found => ih found) member
  | group index body ih =>
    obtain ⟨inner, found, rfl⟩ := mem_map.mp member
    obtain ⟨read, word, split, sets⟩ := ih found
    refine ⟨read, word, split, ?_⟩
    have taken : text.take (text.length - inner.2.length) = read := by
      rw [split, length_append, Nat.add_sub_cancel, take_left]
    intro other held given
    simp only [Captures.set, taken] at given
    split at given
    · rename_i same
      cases given
      exact .inr ⟨body, by simp [groups, same], word⟩
    · exact (sets other held given).imp_right fun ⟨inner, member, word⟩ =>
        ⟨inner, mem_cons_of_mem _ member, word⟩

/-- What the body of a repetition keeps, the repetition keeps. -/
theorem repeated_invariant {P : Captures → Prop} {body : Captures → Text → List (Captures × Text)}
    (keeps : ∀ captures text way, way ∈ body captures text → P captures → P way.1) {fuel : Nat}
    (member : way ∈ repeated body fuel captures text) (holds : P captures) : P way.1 := by
  induction fuel generalizing captures text with
  | zero =>
    obtain rfl := mem_singleton.mp member
    exact holds
  | succ fuel ih =>
    rcases mem_append.mp member with more | stops
    · obtain ⟨once, found, rest⟩ := mem_flatMap.mp more
      exact ih rest (keeps _ _ once (mem_filter.mp found).1 holds)
    · obtain rfl := mem_singleton.mp stops
      exact holds

theorem run_keeps (member : way ∈ run regexp captures text) {index : Nat}
    (set : (captures index).isSome = true) : (way.1 index).isSome = true := by
  induction regexp generalizing captures text way with
  | empty =>
    obtain rfl := mem_singleton.mp member
    exact set
  | char accepts =>
    cases text with
    | nil => cases member
    | cons c rest =>
      simp only [run] at member
      split at member
      · obtain rfl := mem_singleton.mp member
        exact set
      · cases member
  | seq first second ih₁ ih₂ =>
    obtain ⟨middle, found, rest⟩ := mem_flatMap.mp member
    exact ih₂ rest (ih₁ found set)
  | alt first second ih₁ ih₂ =>
    rcases mem_append.mp member with found | found
    · exact ih₁ found set
    · exact ih₂ found set
  | star body ih =>
    exact repeated_invariant (P := fun captures => (captures index).isSome = true)
      (fun _ _ _ found set => ih found set) member set
  | group other body ih =>
    obtain ⟨inner, found, rfl⟩ := mem_map.mp member
    simp only [Captures.set]
    split
    · rfl
    · exact ih found set

theorem run_required
    (member : way ∈ run regexp captures text) {index : Nat} (always : index ∈ required regexp) :
    (way.1 index).isSome = true := by
  induction regexp generalizing captures text way with
  | empty | char | star => cases always
  | seq first second ih₁ ih₂ =>
    obtain ⟨middle, found, rest⟩ := mem_flatMap.mp member
    rcases mem_append.mp always with early | late
    · exact run_keeps rest (ih₁ found early)
    · exact ih₂ rest late
  | alt first second ih₁ ih₂ =>
    obtain ⟨onFirst, onSecond⟩ := mem_filter.mp always
    rcases mem_append.mp member with found | found
    · exact ih₁ found onFirst
    · exact ih₂ found (of_decide_eq_true onSecond)
  | group other body ih =>
    obtain ⟨inner, found, rfl⟩ := mem_map.mp member
    simp only [Captures.set]
    split
    · rfl
    · rename_i differ
      exact ih found ((mem_cons.mp always).resolve_left differ)

/-- One group is only passed behind another one. -/
def guarded (label index : Nat) : Regexp → Bool
  | .empty | .char _ => true
  | .seq first second =>
    (guarded label index first && guarded label index second) || decide (label ∈ required first)
  | .alt first second => guarded label index first && guarded label index second
  | .star body => guarded label index body
  | .group other body => decide (other ≠ index) && guarded label index body

theorem run_guarded {label index : Nat} (behind : guarded label index regexp = true)
    (member : way ∈ run regexp captures text)
    (before : (captures index).isSome = true → (captures label).isSome = true)
    (set : (way.1 index).isSome = true) : (way.1 label).isSome = true := by
  induction regexp generalizing captures text way with
  | empty =>
    obtain rfl := mem_singleton.mp member
    exact before set
  | char accepts =>
    cases text with
    | nil => cases member
    | cons c rest =>
      simp only [run] at member
      split at member
      · obtain rfl := mem_singleton.mp member
        exact before set
      · cases member
  | seq first second ih₁ ih₂ =>
    obtain ⟨middle, found, rest⟩ := mem_flatMap.mp member
    rw [guarded, Bool.or_eq_true, Bool.and_eq_true, decide_eq_true_eq] at behind
    rcases behind with ⟨early, late⟩ | always
    · exact ih₂ late rest (fun given => ih₁ early found before given) set
    · exact run_keeps rest (run_required found always)
  | alt first second ih₁ ih₂ =>
    rw [guarded, Bool.and_eq_true] at behind
    rcases mem_append.mp member with found | found
    · exact ih₁ behind.1 found before set
    · exact ih₂ behind.2 found before set
  | star body ih =>
    exact repeated_invariant
      (P := fun captures => (captures index).isSome = true → (captures label).isSome = true)
      (fun _ _ _ found holds given => ih behind found holds given) member before set
  | group other body ih =>
    rw [guarded, Bool.and_eq_true, decide_eq_true_eq] at behind
    obtain ⟨inner, found, rfl⟩ := mem_map.mp member
    simp only [Captures.set] at set ⊢
    rw [if_neg behind.1.symm] at set
    split
    · rfl
    · exact ih behind.2 found before set

theorem matchText_guarded (matched : matchText regexp text = some captures) {label index : Nat}
    (behind : guarded label index regexp = true) (missing : captures label = none) :
    captures index = none := by
  obtain ⟨way, found, rfl⟩ := Option.map_eq_some_iff.mp matched
  have member := mem_of_find?_eq_some found
  rw [← Option.not_isSome_iff_eq_none] at missing ⊢
  exact fun set => missing (run_guarded behind member (fun given => nomatch given) set)

theorem matchText_capture (matched : matchText regexp text = some captures) :
    (∀ index ∈ required regexp, (captures index).isSome = true) ∧
    ∀ index held, captures index = some held →
      ∃ body, (index, body) ∈ groups regexp ∧ held ∈ lang body := by
  obtain ⟨way, found, rfl⟩ := Option.map_eq_some_iff.mp matched
  have member := mem_of_find?_eq_some found
  refine ⟨fun index always => run_required member always, fun index held given => ?_⟩
  obtain ⟨read, word, split, sets⟩ := run_sound member
  exact (sets index held given).resolve_left (by simp)

end Regexp

end GuardSarm
