import GuardSarm.Engine.Logpar

/-!
# Printing and parsing

A logpar expression in normal form is what the parser reads from its text. The
characters that follow an element decide where it ends: a literal ends at the
first reserved character that is not escaped, and a field starts a choice where
a question mark follows it, which no element starts with.

* `pField_print`, `repeats_pElement`: elements, with any text behind them.
* `pBody_print`: a list with groups, given that its groups are read.
-/

namespace GuardSarm.Logpar

open List

open Parsec

section printing

/-- The reserved characters and the escape stand behind an escape. -/
def escape (reservedChars : Text) : Text → Text
  | [] => []
  | c :: text =>
    if c ∈ reservedChars ++ [Syntax.exprEscape]
    then Syntax.exprEscape :: c :: escape reservedChars text
    else c :: escape reservedChars text

def reservedArgChars : Text := [Syntax.exprArgSep, Syntax.exprEnd]

def printArgs : List Text → Text
  | [] => []
  | arg :: args => Syntax.exprArgSep :: escape reservedArgChars arg ++ printArgs args

def Field.print (field : Field) : Text :=
  Syntax.exprBegin :: ((if field.optional then [Syntax.exprOpt] else []) ++ (field.name ++
    (printArgs field.args ++ [Syntax.exprEnd])))

mutual

def ParserInfo.print : ParserInfo → Text
  | .literal value => escape reservedLiteralChars value
  | .field field => field.print
  | .choice choice => choice.left.print ++ Syntax.exprOpt :: choice.right.print
  | .group children =>
    Syntax.exprGroupBegin :: Syntax.exprOpt :: (printAll children ++ [Syntax.exprGroupEnd])

def printAll : List ParserInfo → Text
  | [] => []
  | info :: infos => info.print ++ printAll infos

end

theorem printAll_append (one two : List ParserInfo) :
    printAll (one ++ two) = printAll one ++ printAll two := by
  induction one with
  | nil => rfl
  | cons info one ih => simp [printAll, ih]

end printing

section normal

def AcceptedName : Text → Prop
  | [] => False
  | c :: rest =>
    isAlphaNum Syntax.exprFieldExtendedCharsFirst c = true ∧
      ∀ d ∈ rest, isAlphaNum (Syntax.exprFieldExtendedChars ++ [Syntax.exprFieldSep]) d = true

def ParserInfo.isLiteral : ParserInfo → Bool
  | .literal _ => true
  | _ => false

def ParserInfo.isGroup : ParserInfo → Bool
  | .group _ => true
  | _ => false

def Separated (infos : List ParserInfo) : Prop :=
  infos.IsChain fun one two => one.isLiteral = false ∨ two.isLiteral = false

inductive Normal : ParserInfo → Prop
  | literal {value : Text} : value ≠ [] → Normal (.literal value)
  | field {field : Field} : AcceptedName field.name → Normal (.field field)
  | choice {choice : Choice} :
      AcceptedName choice.left.name → choice.left.optional = false →
      AcceptedName choice.right.name → choice.right.optional = false → Normal (.choice choice)
  | group {children : List ParserInfo} :
      children ≠ [] → Separated children → (∀ child ∈ children, Normal child) →
      Normal (.group children)

structure NormalForm (infos : List ParserInfo) : Prop where
  nonempty : infos ≠ []
  separated : Separated infos
  normal : ∀ info ∈ infos, Normal info

end normal

section characters

variable {chars reservedChars rest : Text} {c : Char}

theorem pChar_cons (member : c ∈ chars) : pChar chars (c :: rest) = some (c, rest) :=
  satisfy_cons (by simpa using member)

theorem pChar_self (c : Char) (rest : Text) : pChar [c] (c :: rest) = some (c, rest) :=
  pChar_cons (List.mem_singleton.mpr rfl)

theorem pChar_fails (missing : ∀ c ∈ rest.head?, c ∉ chars) : pChar chars rest = none :=
  satisfy_fails (by simpa using missing)

theorem pNotChar_cons (missing : c ∉ chars) : pNotChar chars (c :: rest) = some (c, rest) :=
  satisfy_cons (by simpa using missing)

theorem pNotChar_fails (member : ∀ c ∈ rest.head?, c ∈ chars) : pNotChar chars rest = none :=
  satisfy_fails (by simpa using member)

theorem pRawChar_escaped (reserved : c ∈ reservedChars ++ [Syntax.exprEscape]) :
    pRawChar reservedChars Syntax.exprEscape (Syntax.exprEscape :: c :: rest) = some (c, rest) := by
  rw [pRawChar, either_right (pNotChar_fails (by simp))]
  exact second_of (pChar_self _ _) (pChar_cons reserved)

/-- A text ends at a reserved character that is not escaped. -/
theorem pRawChar_fails (plain : Syntax.exprEscape ∉ reservedChars)
    (ends : ∀ c ∈ rest.head?, c ∈ reservedChars) :
    pRawChar reservedChars Syntax.exprEscape rest = none := by
  rw [pRawChar, either_right (pNotChar_fails fun c head => by simp [ends c head])]
  apply second_fails
  apply pChar_fails
  intro c head same
  rw [mem_singleton] at same
  exact plain (same ▸ ends c head)

theorem repeats_pRawChar (plain : Syntax.exprEscape ∉ reservedChars) (value : Text)
    (ends : ∀ c ∈ rest.head?, c ∈ reservedChars) :
    Repeats (pRawChar reservedChars Syntax.exprEscape) (escape reservedChars value ++ rest)
      value rest := by
  induction value with
  | nil => exact .stop (pRawChar_fails plain ends)
  | cons c value ih =>
    rw [escape]
    split
    · rename_i reserved
      exact .round (pRawChar_escaped reserved) (by simp) ih
    · rename_i free
      exact .round (either_left (pNotChar_cons free)) (by simp) ih

end characters

section fields

variable {rest : Text}

theorem pFieldName_print {name : Text} (accepted : AcceptedName name) (ends : ∀ c ∈ rest.head?,
      isAlphaNum (Syntax.exprFieldExtendedChars ++ [Syntax.exprFieldSep]) c = false) :
    pFieldName (name ++ rest) = some (name, rest) := by
  cases name with
  | nil => exact accepted.elim
  | cons c later =>
    obtain ⟨start, others⟩ := accepted
    exact fmap_of (both_of (satisfy_cons start) (many_of_repeats (repeats_satisfy others ends)))

theorem AcceptedName.head_ne_opt {name : Text} (accepted : AcceptedName name) {c : Char}
    (head : c ∈ (name ++ rest).head?) : c ∉ [Syntax.exprOpt] := by
  cases name with
  | nil => exact accepted.elim
  | cons d later =>
    obtain rfl : d = c := by simpa using head
    intro same
    obtain rfl := mem_singleton.mp same
    exact absurd accepted.1 (by decide)

/-- An argument ends at the next separator or at the end of the field. -/
theorem head_printArgs {args : List Text} {c : Char}
    (head : c ∈ (printArgs args ++ Syntax.exprEnd :: rest).head?) : c ∈ reservedArgChars := by
  cases args with
  | nil => simp_all [printArgs, reservedArgChars]
  | cons arg args => simp_all [printArgs, reservedArgChars]

theorem pArgs_print (args : List Text) :
    pArgs (printArgs args ++ Syntax.exprEnd :: rest) = some (args, Syntax.exprEnd :: rest) := by
  apply many_of_repeats
  induction args with
  | nil => exact .stop (second_fails (pChar_fails (by simp [printArgs]; decide)))
  | cons arg args ih =>
    have value := many_of_repeats (repeats_pRawChar (by decide) arg
      fun c (head : c ∈ (printArgs args ++ Syntax.exprEnd :: rest).head?) => head_printArgs head)
    rw [printArgs, cons_append, cons_append, append_assoc]
    exact .round (second_of (pChar_self _ _) value) (by simp) ih

theorem pField_print (field : Field) (accepted : AcceptedName field.name) (rest : Text) :
    pField (field.print ++ rest) = some (field, rest) := by
  obtain ⟨name, args, optional⟩ := field
  have named : pFieldName (name ++ (printArgs args ++ Syntax.exprEnd :: rest)) =
      some (name, printArgs args ++ Syntax.exprEnd :: rest) := by
    apply pFieldName_print accepted
    intro c head
    obtain rfl | rfl : c = Syntax.exprArgSep ∨ c = Syntax.exprEnd := by
      simpa [reservedArgChars] using head_printArgs head
    · decide
    · decide
  have marked : opt nul (pChar [Syntax.exprOpt])
      ((if optional then [Syntax.exprOpt] else []) ++
        (name ++ (printArgs args ++ Syntax.exprEnd :: rest))) =
      some (if optional then Syntax.exprOpt else nul,
        name ++ (printArgs args ++ Syntax.exprEnd :: rest)) := by
    cases optional with
    | true => exact opt_of (pChar_self _ _)
    | false => exact opt_fails (pChar_fails fun c head => accepted.head_ne_opt head)
  have inside := both_of (both_of marked named) (pArgs_print args)
  have mark : decide ((if optional then Syntax.exprOpt else nul) ≠ nul) = optional := by
    cases optional <;> decide
  rw [Field.print, cons_append, append_assoc, append_assoc, append_assoc]
  refine first_of (second_of (pChar_self _ _) ?_) (pChar_self Syntax.exprEnd _)
  refine (fmap_of inside).trans ?_
  simp only [mark]

end fields

section elements

variable {rest : Text}

/-- What can follow a list of elements: nothing, or the start or the end of a group. -/
def Ends (rest : Text) : Prop :=
  ∀ c ∈ rest.head?, c ∈ [Syntax.exprGroupBegin, Syntax.exprGroupEnd]

theorem pField_fails (start : ∀ c ∈ rest.head?, c ∉ [Syntax.exprBegin]) : pField rest = none :=
  first_fails (second_fails (pChar_fails start))

theorem pChoice_fails (fails : first pField (pChar [Syntax.exprOpt]) rest = none) :
    pChoice rest = none := by
  rw [pChoice, both_fails fails]

theorem pElement_eq_pLiteral (start : ∀ c ∈ rest.head?, c ∉ [Syntax.exprBegin]) :
    pElement rest = fmap .literal pLiteral rest := by
  have field := pField_fails start
  have choice := pChoice_fails (first_fails field)
  rw [pElement, either_right]
  rw [either_right (fmap_fails choice), fmap_fails field]

/-- The text of a literal starts with an escape or with a character that is not reserved. -/
theorem head_escape {reservedChars value : Text} (plain : Syntax.exprEscape ∉ reservedChars)
    (nonempty : value ≠ []) {c : Char} (head : c ∈ (escape reservedChars value ++ rest).head?) :
    c ∉ reservedChars := by
  cases value with
  | nil => exact absurd rfl nonempty
  | cons d value =>
    rw [escape] at head
    split at head
    · obtain rfl : Syntax.exprEscape = c := by simpa using head
      exact plain
    · rename_i free
      obtain rfl : d = c := by simpa using head
      exact fun reserved => free (mem_append_left _ reserved)

theorem pElement_literal {value : Text} (nonempty : value ≠ [])
    (ends : ∀ c ∈ rest.head?, c ∈ reservedLiteralChars) :
    pElement ((ParserInfo.literal value).print ++ rest) = some (.literal value, rest) := by
  rw [ParserInfo.print, pElement_eq_pLiteral]
  · exact fmap_of (many1_of_repeats (repeats_pRawChar (by decide) value ends) nonempty)
  · intro c head same
    apply head_escape (by decide) nonempty head
    rw [mem_singleton.mp same]
    decide

/-- A field is no choice unless a question mark follows. -/
theorem pElement_field {field : Field} (accepted : AcceptedName field.name)
    (next : ∀ c ∈ rest.head?, c ∉ [Syntax.exprOpt]) :
    pElement ((ParserInfo.field field).print ++ rest) = some (.field field, rest) := by
  have read := pField_print field accepted rest
  have choice := pChoice_fails (first_fails_right read (pChar_fails next))
  rw [ParserInfo.print]
  apply either_left
  rw [either_right (fmap_fails choice)]
  exact fmap_of read

theorem pElement_choice {choice : Choice} (left : AcceptedName choice.left.name)
    (first : choice.left.optional = false) (right : AcceptedName choice.right.name)
    (second : choice.right.optional = false) :
    pElement ((ParserInfo.choice choice).print ++ rest) = some (.choice choice, rest) := by
  have mark := pChar_self Syntax.exprOpt (choice.right.print ++ rest)
  have fields := both_of (first_of (pField_print choice.left left _) mark)
    (pField_print choice.right right rest)
  rw [ParserInfo.print, append_assoc, cons_append]
  apply either_left
  apply either_left
  apply fmap_of
  rw [pChoice, fields]
  simp [first, second]

theorem pElement_fails (ends : Ends rest) : pElement rest = none := by
  have inside : ∀ c ∈ rest.head?, c ∈ reservedLiteralChars := by
    intro c head
    have member := ends c head
    simp only [mem_cons, not_mem_nil, or_false] at member
    simp [reservedLiteralChars, member]
  rw [pElement_eq_pLiteral]
  · exact fmap_fails (many1_fails (pRawChar_fails (by decide) inside))
  · intro c head same
    have member := ends c head
    rw [mem_singleton.mp same] at member
    exact absurd member (by decide)

theorem pExpr_fails (ends : Ends rest) : pExpr rest = none := many1_fails (pElement_fails ends)

variable {infos : List ParserInfo}

theorem head_printAll_ne_opt (normal : ∀ info ∈ infos, Normal info)
    (ends : Ends rest) {c : Char} (head : c ∈ (printAll infos ++ rest).head?) :
    c ∉ [Syntax.exprOpt] := by
  intro same
  obtain rfl := mem_singleton.mp same
  cases infos with
  | nil => exact absurd (ends _ head) (by decide)
  | cons info infos =>
    rw [printAll, append_assoc] at head
    cases normal info (by simp) with
    | literal nonempty => exact head_escape (by decide) nonempty head (by decide)
    | field | choice | group => exact absurd head (by simp [ParserInfo.print, Field.print]; decide)

/-- What follows a literal starts with a reserved character. -/
theorem head_printAll_reserved {info : ParserInfo}
    (separated : Separated (info :: infos)) (literal : info.isLiteral = true)
    (ends : Ends rest) {c : Char} (head : c ∈ (printAll infos ++ rest).head?) :
    c ∈ reservedLiteralChars := by
  cases infos with
  | nil =>
    have member := ends c head
    simp only [mem_cons, not_mem_nil, or_false] at member
    simp [reservedLiteralChars, member]
  | cons next infos =>
    have other : next.isLiteral = false := by
      simpa [Separated, literal] using (isChain_cons_cons.mp separated).1
    cases next with
    | literal => cases other
    | field | choice =>
      obtain rfl : Syntax.exprBegin = c := by
        simpa [printAll, ParserInfo.print, Field.print] using head
      decide
    | group =>
      obtain rfl : Syntax.exprGroupBegin = c := by simpa [printAll, ParserInfo.print] using head
      decide

theorem repeats_pElement (ends : Ends rest)
    (normal : ∀ info ∈ infos, Normal info) (separated : Separated infos)
    (plain : ∀ info ∈ infos, info.isGroup = false) :
    Repeats pElement (printAll infos ++ rest) infos rest := by
  induction infos with
  | nil => exact .stop (pElement_fails ends)
  | cons info infos ih =>
    have later := ih (fun other member => normal other (by simp [member])) separated.of_cons
      fun other member => plain other (by simp [member])
    have read : pElement (info.print ++ (printAll infos ++ rest)) =
        some (info, printAll infos ++ rest) := by
      cases normal info (by simp) with
      | literal nonempty =>
        exact pElement_literal nonempty fun c => head_printAll_reserved separated rfl ends
      | field accepted =>
        exact pElement_field accepted fun c =>
          head_printAll_ne_opt (fun other member => normal other (by simp [member])) ends
      | choice left first right second => exact pElement_choice left first right second
      | group => cases plain _ mem_cons_self
    rw [printAll, append_assoc]
    exact .round read (progresses_pElement _ _ _ read) later

end elements

section groups

variable {rest : Text}

/-- A group is read from its text, with anything behind it. -/
def GroupRead : ParserInfo → Prop
  | .group children => ∀ rest, pGroup ((ParserInfo.group children).print ++ rest) = some (children, rest)
  | _ => True

theorem pGroup_fails (start : ∀ c ∈ rest.head?, c ∉ [Syntax.exprGroupBegin]) :
    pGroup rest = none := by
  rw [pGroup_eq]
  exact first_fails (second_fails (both_fails (pChar_fails start)))

theorem pItem_fails (closed : ∀ c ∈ rest.head?, c ∈ [Syntax.exprGroupEnd]) :
    pItem pGroup rest = none := by
  have ends : Ends rest := fun c head => mem_cons_of_mem _ (closed c head)
  have start : ∀ c ∈ rest.head?, c ∉ [Syntax.exprGroupBegin] := by
    intro c head
    rw [mem_singleton.mp (closed c head)]
    decide
  rw [pItem, either_right (pExpr_fails ends), fmap_fails (pGroup_fails start)]

/-- The elements before the first group are read in one piece. -/
theorem repeats_run {after : Text} (ends : Ends after) {run : List ParserInfo}
    {pieces : List (List ParserInfo)} (normal : ∀ info ∈ run, Normal info)
    (separated : Separated run) (plain : ∀ info ∈ run, info.isGroup = false)
    (later : Repeats (pItem pGroup) after pieces rest) :
    ∃ all, all.flatten = run ++ pieces.flatten ∧
      Repeats (pItem pGroup) (printAll run ++ after) all rest := by
  by_cases empty : run = []
  · subst empty
    exact ⟨pieces, rfl, later⟩
  · have read := many1_of_repeats (repeats_pElement ends normal separated plain) empty
    have shorter := progresses_many1 progresses_pElement _ _ _ read
    exact ⟨run :: pieces, rfl, .round (either_left read) shorter later⟩

theorem repeats_group {after : Text} {children : List ParserInfo}
    {pieces : List (List ParserInfo)} (group : GroupRead (.group children))
    (later : Repeats (pItem pGroup) after pieces rest) :
    Repeats (pItem pGroup) ((ParserInfo.group children).print ++ after)
      ([.group children] :: pieces) rest := by
  have ends : Ends ((ParserInfo.group children).print ++ after) := by simp [Ends, ParserInfo.print]
  have read : pItem pGroup ((ParserInfo.group children).print ++ after) =
      some ([.group children], after) := by
    rw [pItem, either_right (pExpr_fails ends)]
    exact fmap_of (group after)
  exact .round read (progresses_pItem progresses_pGroup _ _ _ read) later

theorem exists_run (infos : List ParserInfo) :
    ∃ run later, infos = run ++ later ∧ (∀ info ∈ run, info.isGroup = false) ∧
      (later = [] ∨ ∃ children others, later = .group children :: others) := by
  induction infos with
  | nil => exact ⟨[], [], rfl, by simp, .inl rfl⟩
  | cons info infos ih =>
    cases info with
    | group children => exact ⟨[], _, rfl, by simp, .inr ⟨children, infos, rfl⟩⟩
    | literal | field | choice =>
      obtain ⟨run, later, rfl, plain, start⟩ := ih
      exact ⟨_ :: run, later, rfl, by simpa [ParserInfo.isGroup] using plain, start⟩

theorem repeats_pItem (closed : ∀ c ∈ rest.head?, c ∈ [Syntax.exprGroupEnd])
    (normal : ∀ info ∈ infos, Normal info) (separated : Separated infos)
    (groups : ∀ info ∈ infos, GroupRead info) : ∃ pieces, pieces.flatten = infos ∧
      Repeats (pItem pGroup) (printAll infos ++ rest) pieces rest := by
  induction length : infos.length using Nat.strong_induction_on generalizing infos with
  | _ n ih =>
    obtain ⟨run, later, rfl, plain, rfl | ⟨children, others, rfl⟩⟩ := exists_run infos
    · have ends : Ends rest := fun c head => mem_cons_of_mem _ (closed c head)
      rw [append_nil] at normal separated groups ⊢
      simpa using repeats_run ends normal separated plain (.stop (pItem_fails closed))
    · obtain ⟨before, after⟩ := isChain_append.mp separated
      obtain ⟨pieces, rfl, others⟩ := ih others.length (by simp at length; omega)
        (fun info member => normal info (by simp [member])) after.1.of_cons
        (fun info member => groups info (by simp [member])) rfl
      have group := repeats_group (groups (.group children) (by simp)) others
      have ends : Ends ((ParserInfo.group children).print ++ (printAll pieces.flatten ++ rest)) := by
        simp [Ends, ParserInfo.print]
      obtain ⟨all, same, repeats⟩ := repeats_run ends
        (fun info member => normal info (by simp [member])) before plain group
      refine ⟨all, by simpa using same, ?_⟩
      rw [printAll_append, printAll, append_assoc, append_assoc]
      exact repeats

theorem pBody_print (form : NormalForm infos)
    (groups : ∀ info ∈ infos, GroupRead info) (rest : Text)
    (closed : ∀ c ∈ rest.head?, c ∈ [Syntax.exprGroupEnd]) :
    pBody pGroup (printAll infos ++ rest) = some (infos, rest) := by
  obtain ⟨pieces, rfl, repeats⟩ := repeats_pItem closed form.normal form.separated groups
  refine fmap_of (many1_of_repeats repeats ?_)
  rintro rfl
  exact form.nonempty rfl

theorem Normal.groupRead {info : ParserInfo} (normal : Normal info) : GroupRead info := by
  induction normal with
  | literal | field | choice => trivial
  | @group children nonempty separated normal ih =>
    intro rest
    have body := pBody_print ⟨nonempty, separated, normal⟩ ih (Syntax.exprGroupEnd :: rest)
      (by simp)
    have start := both_of (pChar_self Syntax.exprGroupBegin _)
      (pChar_self Syntax.exprOpt (printAll children ++ Syntax.exprGroupEnd :: rest))
    rw [pGroup_eq, ParserInfo.print]
    simp only [cons_append, append_assoc, nil_append]
    exact first_of (second_of start body) (pChar_self _ _)

/-- **Expressions survive printing and parsing.** The text of an expression in normal form is
parsed to that expression, and nothing of the text is left. -/
theorem logpar_round_trip (infos : List ParserInfo) (form : NormalForm infos) :
    pLogpar (printAll infos) = some (infos, []) := by
  have body := pBody_print form (fun info member => (form.normal info member).groupRead) []
    (by simp)
  rw [append_nil] at body
  exact first_of body rfl

/-- A literal with a parenthesis, a group with a group inside, and a choice. -/
theorem logpar_round_trip_nested : pLogpar "a\\((?(?<?x/\\/>)b)<y>?<~/p/>".toList =
      some ([.literal ['a', '('], .group [.group [.field ⟨['x'], [['/']], true⟩], .literal ['b']],
        .choice ⟨⟨['y'], [], false⟩, ⟨['~'], [['p'], []], false⟩⟩], []) := by
  have named : ∀ c, isAlphaNum Syntax.exprFieldExtendedCharsFirst c = true → AcceptedName [c] :=
    fun c first => ⟨first, by simp⟩
  have inner : Normal (.group [.field ⟨['x'], [['/']], true⟩]) := by
    refine .group (by simp) (by simp [Separated]) ?_
    simp only [forall_mem_singleton]
    exact .field (named 'x' (by decide))
  have outer : Normal (.group [.group [.field ⟨['x'], [['/']], true⟩], .literal ['b']]) := by
    refine .group (by simp) (by simp [Separated, ParserInfo.isLiteral]) ?_
    simp only [forall_mem_cons, not_mem_nil, false_implies, implies_true, and_true]
    exact ⟨inner, .literal (by simp)⟩
  have text : "a\\((?(?<?x/\\/>)b)<y>?<~/p/>".toList =
      ['a', '\\', '(', '(', '?', '(', '?', '<', '?', 'x', '/', '\\', '/', '>', ')', 'b', ')',
        '<', 'y', '>', '?', '<', '~', '/', 'p', '/', '>'] := by simp
  have form : NormalForm [.literal ['a', '('],
      .group [.group [.field ⟨['x'], [['/']], true⟩], .literal ['b']],
      .choice ⟨⟨['y'], [], false⟩, ⟨['~'], [['p'], []], false⟩⟩] := by
    refine ⟨by simp, by simp [Separated, ParserInfo.isLiteral], ?_⟩
    simp only [forall_mem_cons, not_mem_nil, false_implies, implies_true, and_true]
    exact ⟨.literal (by simp), outer,
      .choice (named 'y' (by decide)) rfl (named '~' (by decide)) rfl⟩
  rw [text]
  exact logpar_round_trip _ form

end groups

end GuardSarm.Logpar
