import GuardSarm.Engine.LogparBuild
import GuardSarm.Lib.Search

/-!
# Which expressions the builder is defined on

The builder depends on a list of demands, in the order of the source: the depth of
the nesting, the end tokens of groups, the parsers of fields. The end tokens of a
group are undefined where its groups lead to no literal but to the end of the
group.

* `groupEndToken_spec`: the three ways in which the search for the end tokens of a
  group ends.
* `buildParsers_walks`: the builder meets its demands in order.
-/

namespace GuardSarm.Logpar

section groups

/-- A literal stands behind the groups at the start, and so inside each of them. -/
inductive Resolved : List ParserInfo → Prop
  | literal {value : Text} {rest : List ParserInfo} : Resolved (.literal value :: rest)
  | group {children rest : List ParserInfo} :
      Resolved children → Resolved rest → Resolved (.group children :: rest)

/-- Nothing stands behind the groups at the start, or nothing does inside the first of them that
is not resolved. -/
inductive Unfinished : List ParserInfo → Prop
  | nothing : Unfinished []
  | inside {children rest : List ParserInfo} :
      Unfinished children → Unfinished (.group children :: rest)
  | behind {children rest : List ParserInfo} :
      Resolved children → Unfinished rest → Unfinished (.group children :: rest)

variable {infos children rest : List ParserInfo}

theorem Resolved.not_unfinished (resolved : Resolved infos) : ¬ Unfinished infos := by
  induction resolved with
  | literal => intro unfinished; cases unfinished
  | group _ _ inside behind =>
    intro unfinished
    cases unfinished with
    | inside unfinished => exact inside unfinished
    | behind _ unfinished => exact behind unfinished

/-- The search for the end tokens of a group finds some, runs past the end or is refused. -/
inductive TokenSpec (infos : List ParserInfo) : Except Failure (List Text) → Prop
  | found {tokens : List Text} : Resolved infos → tokens ≠ [] → TokenSpec infos (.ok tokens)
  | past : Unfinished infos → TokenSpec infos (.error .pastEnd)
  | refused {message : String} :
      ¬ Resolved infos → ¬ Unfinished infos → TokenSpec infos (.error (.runtimeError message))

theorem TokenSpec.group {inner later : Except Failure (List Text)}
    (first : TokenSpec children inner) (next : TokenSpec rest later) :
    TokenSpec (.group children :: rest) (do
      let tokens ← inner
      let others ← later
      return tokens ++ others) := by
  cases first with
  | found resolved nonempty =>
    cases next with
    | found behind _ => exact .found (.group resolved behind) (by simp [nonempty])
    | past unfinished => exact .past (.behind resolved unfinished)
    | refused unresolved finished =>
      apply TokenSpec.refused
      · intro other
        cases other with
        | group _ behind => exact unresolved behind
      · intro other
        cases other with
        | inside unfinished => exact resolved.not_unfinished unfinished
        | behind _ unfinished => exact finished unfinished
  | past unfinished => exact .past (.inside unfinished)
  | refused unresolved finished =>
    apply TokenSpec.refused
    · intro other
      cases other with
      | group inside _ => exact unresolved inside
    · intro other
      cases other with
      | inside unfinished => exact finished unfinished
      | behind resolved _ => exact unresolved resolved

mutual

theorem groupEndToken_spec (infos : List ParserInfo) : TokenSpec infos (groupEndToken infos) := by
  match infos with
  | [] => rw [groupEndToken]; exact .past .nothing
  | .literal value :: rest => rw [groupEndToken]; exact .found .literal (by simp)
  | .group children :: rest =>
    rw [groupEndToken]
    exact .group (groupEndToken_spec children) (groupEndTokenFrom_spec rest)
  | .field _ :: rest | .choice _ :: rest => rw [groupEndToken]; exact .refused nofun nofun

theorem groupEndTokenFrom_spec (infos : List ParserInfo) :
    TokenSpec infos (groupEndTokenFrom infos) := by
  match infos with
  | [] => rw [groupEndTokenFrom]; exact .past .nothing
  | .literal value :: rest => rw [groupEndTokenFrom]; exact .found .literal (by simp)
  | .group children :: rest =>
    rw [groupEndTokenFrom]
    exact .group (groupEndToken_spec children) (groupEndTokenFrom_spec rest)
  | .field _ :: rest | .choice _ :: rest => rw [groupEndTokenFrom]; exact .refused nofun nofun

end

end groups

section demands

/-- What the builder needs to go on: a depth of nesting or a number of groups in a row within the
limit, the end tokens of a group, a parser for a field. -/
inductive Demand where
  | level (n : Nat)
  | tokens (children : List ParserInfo)
  | field (field : Field)

/-- A field that no configuration has a parser for has an empty part in its path, or is the
wildcard with an unknown type of parser. -/
def Buildable (field : Field) : Prop :=
  if field.name = exprWildcard then ∀ arg ∈ field.args.head?, strToParserType arg ≠ .errorType
  else ∃ path, dotPath field.name = .ok path

def Met (limit : Nat) : Demand → Prop
  | .level n => n ≤ limit
  | .tokens children => Resolved children
  | .field field => Buildable field

def Demand.Unfinished : Demand → Prop
  | .tokens children => Logpar.Unfinished children
  | _ => False

def Fault (limit : Nat) (demand : Demand) : Failure → Prop
  | .runtimeError _ => ¬ Met limit demand ∧ ¬ demand.Unfinished
  | .pastEnd => demand.Unfinished
  | .emptyFront => False

/-- The element after the groups is a literal or the end of the line. -/
def delimited : List ParserInfo → Bool
  | [] => true
  | .literal _ :: _ => true
  | .group _ :: rest => delimited rest
  | .field _ :: _ | .choice _ :: _ => false

/-- The groups that follow an element, the last one first. -/
def demandsAhead : List ParserInfo → List Demand
  | .group children :: rest =>
    if delimited rest then demandsAhead rest ++ [.tokens children] else []
  | _ => []

mutual

def demands (infos : List ParserInfo) (recurLvl : Nat) : List Demand :=
  .level recurLvl :: demandsEach infos recurLvl
termination_by (sizeOf infos, 1)

def demandsEach : List ParserInfo → Nat → List Demand
  | [], _ => []
  | .field field :: .group children :: rest, recurLvl =>
    [.tokens children] ++ ([.field field] ++ (demands children (recurLvl + 1) ++
      (demandsAhead rest ++ ([.field field] ++ demandsEach rest recurLvl))))
  | .field field :: rest, recurLvl =>
    demandsAhead rest ++ ([.field field] ++ demandsEach rest recurLvl)
  | .literal _ :: rest, recurLvl => demandsEach rest recurLvl
  | .choice choice :: rest, recurLvl =>
    demandsAhead rest ++ ([.field choice.left, .field choice.right] ++ demandsEach rest recurLvl)
  | .group children :: rest, recurLvl =>
    [.level (groupCount rest + 1)] ++ (demands children (recurLvl + 1) ++
      demandsEach rest recurLvl)
termination_by infos => (sizeOf infos, 0)

end

end demands

section walks

variable {limit : Nat} {own : Failure → Prop}

theorem TokenSpec.walks {children : List ParserInfo} {outcome : Except Failure (List Text)}
    (spec : TokenSpec children outcome) :
    Walks (Met limit) (Fault limit) own [.tokens children] outcome := by
  cases spec with
  | found resolved _ => exact .returns (by simpa [Met] using resolved)
  | past unfinished => exact .single unfinished
  | refused unresolved finished => exact .single ⟨unresolved, finished⟩

/-- Where the groups are followed by no literal there is no end token, and no group is looked
into. -/
theorem getEndToken_empty (infos : List ParserInfo) (open' : delimited infos = false) :
    getEndToken infos = .ok [] := by
  induction infos with
  | nil => cases open'
  | cons info rest ih =>
    cases info with
    | literal => cases open'
    | field | choice => rfl
    | group children => simp [getEndToken, ih open', bind, Except.bind, pure, Except.pure]

variable {tokens : List Text}

theorem getEndToken_nonempty (infos : List ParserInfo) (closed : delimited infos = true)
    (found : getEndToken infos = .ok tokens) : tokens ≠ [] := by
  induction infos generalizing tokens with
  | nil => cases found; simp
  | cons info rest ih =>
    cases info with
    | literal => cases found; simp
    | field | choice => cases closed
    | group children =>
      rw [getEndToken] at found
      cases later : getEndToken rest with
      | error failure => simp [later, bind, Except.bind] at found
      | ok after =>
        have some := ih closed later
        cases inside : groupEndToken children with
        | error failure => simp [later, inside, some, bind, Except.bind] at found
        | ok inner =>
          simp only [later, inside, some, bind, Except.bind, pure, Except.pure, if_false,
            Except.ok.injEq] at found
          simp [← found, some]

theorem getEndToken_walks (infos : List ParserInfo) :
    Walks (Met limit) (Fault limit) own (demandsAhead infos) (getEndToken infos) := by
  induction infos with
  | nil => exact .returns (by simp [demandsAhead])
  | cons info rest ih =>
    cases info with
    | literal | field | choice => exact .returns (by simp [demandsAhead])
    | group children =>
      rw [demandsAhead]
      split
      · rename_i closed
        rw [getEndToken]
        apply ih.bind
        intro after found
        rw [if_neg (getEndToken_nonempty rest closed found)]
        exact (groupEndToken_spec children).walks.map _
      · rename_i open'
        rw [getEndToken_empty (.group children :: rest) (by simpa [delimited] using open')]
        exact .pure _

theorem front_walks {children : List ParserInfo} (found : groupEndToken children = .ok tokens) :
    Walks (Met limit) (Fault limit) own [] (front tokens) := by
  have spec := groupEndToken_spec children
  rw [found] at spec
  cases spec with
  | found _ nonempty =>
    cases tokens with
    | nil => exact absurd rfl nonempty
    | cons token later => exact .pure token

/-- A configuration with this limit whose parsers of literals and fields need nothing but what the
demands say, apart from errors of their own. -/
structure Leaves {Hlp : Type} (limit : Nat) (own : Failure → Prop) (logpar : Manager Hlp) :
    Prop where
  limit_eq : logpar.m_maxGroupRecursion = limit
  field : ∀ field tokens,
    Walks (Met limit) (Fault limit) own [.field field] (logpar.buildFieldParser field tokens)
  literal : ∀ value, Walks (Met limit) (Fault limit) own [] (logpar.buildLiteralParser value)

variable {Hlp : Type} {logpar : Manager Hlp}

theorem Leaves.choice (leaves : Leaves limit own logpar) (choice : Choice) (tokens : List Text) :
    Walks (Met limit) (Fault limit) own [.field choice.left, .field choice.right]
      (logpar.buildChoiceParser choice tokens) := by
  apply (leaves.field choice.left []).bind
  intro p1 _
  exact (leaves.field choice.right tokens).map _

theorem level_walks {α : Type} {n : Nat} {later : List Demand} {message : String}
    {x : Except Failure α} (walks : Walks (Met limit) (Fault limit) own later x) :
    Walks (Met limit) (Fault limit) own ([.level n] ++ later)
      (if limit < n then raise message else x) := by
  split
  · rename_i above
    rw [← List.nil_append ([Demand.level n] ++ later)]
    exact .stops (by simp) ⟨fun met => absurd met (not_le.mpr above), id⟩
  · rename_i within
    exact walks.after (by simpa [Met] using within)

mutual

theorem buildParsers_walks (leaves : Leaves limit own logpar) (infos : List ParserInfo)
    (recurLvl : Nat) : Walks (Met limit) (Fault limit) own (demands infos recurLvl)
      (logpar.buildParsers infos recurLvl) := by
  rw [Manager.buildParsers, demands, leaves.limit_eq]
  exact level_walks ((buildEach_walks leaves infos recurLvl).map _)
termination_by (sizeOf infos, 1)

theorem buildEach_walks (leaves : Leaves limit own logpar) (infos : List ParserInfo)
    (recurLvl : Nat) : Walks (Met limit) (Fault limit) own (demandsEach infos recurLvl)
      (logpar.buildEach infos recurLvl) := by
  match infos with
  | [] => rw [Manager.buildEach, demandsEach]; exact .pure _
  | .literal value :: rest =>
    rw [Manager.buildEach, demandsEach, ← List.nil_append (demandsEach rest recurLvl)]
    exact (leaves.literal value).bind fun p _ => (buildEach_walks leaves rest recurLvl).map _
  | .choice choice :: rest =>
    rw [Manager.buildEach, demandsEach]
    apply (getEndToken_walks rest).bind
    intro tokens _
    apply (leaves.choice choice tokens).bind
    intro p _
    exact (buildEach_walks leaves rest recurLvl).map _
  | .group children :: rest =>
    rw [Manager.buildEach, demandsEach, leaves.limit_eq]
    apply level_walks
    apply (buildParsers_walks leaves children (recurLvl + 1)).bind
    intro p _
    exact (buildEach_walks leaves rest recurLvl).map _
  | .field field :: .group children :: rest =>
    rw [Manager.buildEach, demandsEach]
    apply (groupEndToken_spec children).walks.bind
    intro tokens found
    rw [← List.nil_append ([Demand.field field] ++ _)]
    apply (front_walks found).bind
    intro token _
    apply (leaves.field field [token]).bind
    intro pF _
    apply (buildParsers_walks leaves children (recurLvl + 1)).bind
    intro pG _
    apply (getEndToken_walks rest).bind
    intro endToken2 _
    apply (leaves.field field endToken2).bind
    intro choice2 _
    exact (buildEach_walks leaves rest recurLvl).map _
  | .field field :: [] | .field field :: .literal _ :: rest | .field field :: .field _ :: rest
  | .field field :: .choice _ :: rest =>
    rw [Manager.buildEach, demandsEach]
    · apply (getEndToken_walks _).bind
      intro tokens _
      apply (leaves.field field tokens).bind
      intro p _
      exact (buildEach_walks leaves _ recurLvl).map _
    · exact nofun
    · exact nofun
termination_by (sizeOf infos, 0)

end

end walks

section configurations

variable {Hlp α β : Type}

/-- The computation returns or raises `std::runtime_error`. -/
def Defined (outcome : Except Failure α) : Prop :=
  ∀ failure, outcome = .error failure → ∃ message, failure = .runtimeError message

theorem defined_ok (value : α) : Defined (.ok value) := nofun

theorem defined_raise (message : String) : Defined (raise message : Except Failure α) := by
  intro failure same
  cases same
  exact ⟨message, rfl⟩

theorem defined_mapError (x : Except String α) : Defined (x.mapError .runtimeError) := by
  cases x with
  | ok value => exact defined_ok value
  | error message => exact defined_raise message

theorem Defined.bind {x : Except Failure α} {f : α → Except Failure β} (first : Defined x)
    (next : ∀ value, Defined (f value)) : Defined (x >>= f) := by
  cases x with
  | ok value => exact next value
  | error failure =>
    intro other same
    cases same
    exact first failure rfl

theorem defined_construct (logpar : Manager Hlp) (type : ParserType) (params : Params) :
    Defined (logpar.construct type params) := by
  rw [Manager.construct]
  split
  · exact defined_raise _
  · exact defined_mapError _

theorem defined_dotPath (str : Text) : Defined (dotPath str) := by
  rw [dotPath]
  generalize (if str.head? = some '.' then str.tail else str) = path
  rw [DotPath.parse]
  split
  · exact defined_ok _
  · dsimp only
    split
    · exact defined_raise _
    · exact defined_ok _

theorem defined_isSchemaField (logpar : Manager Hlp) (field : Field) :
    Defined (logpar.isSchemaField field) := by
  rw [Manager.isSchemaField]
  split
  · exact defined_raise _
  · split
    · exact defined_ok _
    · exact (defined_dotPath _).bind fun path => (defined_mapError _).bind fun kind => defined_ok _

theorem defined_parserType (logpar : Manager Hlp) (field : Field) (isSchemaField : Bool) :
    Defined (logpar.parserType field isSchemaField) := by
  rw [Manager.parserType]
  split
  · exact (defined_mapError _).bind fun type => defined_ok _
  · split
    · exact defined_ok _
    · split
      · exact defined_raise _
      · exact defined_ok _

theorem defined_buildFieldParser (logpar : Manager Hlp) (field : Field) (tokens : List Text) :
    Defined (logpar.buildFieldParser field tokens) :=
  (defined_isSchemaField logpar field).bind fun isSchemaField =>
    (defined_parserType logpar field isSchemaField).bind fun _ =>
      (defined_construct logpar _ _).bind fun _ => defined_ok _

variable {field : Field}

theorem of_isSchemaField_ok {logpar : Manager Hlp} {isSchemaField : Bool}
    (checked : logpar.isSchemaField field = .ok isSchemaField) :
    (field.name = exprWildcard ∧ isSchemaField = false) ∨
      (field.name ≠ exprWildcard ∧ ∃ path, dotPath field.name = .ok path) := by
  rw [Manager.isSchemaField] at checked
  split at checked
  · cases checked
  · split at checked
    · rename_i wildcard
      cases checked
      exact .inl ⟨wildcard, rfl⟩
    · rename_i named
      obtain ⟨path, parsed, -⟩ := Search.bind_ok_iff.mp checked
      exact .inr ⟨named, path, parsed⟩

theorem of_parserType_ok {logpar : Manager Hlp} {chosen : ParserType × List Text}
    (typed : logpar.parserType field false = .ok chosen) :
    ∀ arg ∈ field.args.head?, strToParserType arg ≠ .errorType := by
  intro arg first unknown
  cases args : field.args with
  | nil => simp [args] at first
  | cons other later =>
    obtain rfl : other = arg := by simpa [args] using first
    simp [Manager.parserType, args, unknown, raise] at typed

theorem buildable_of_ok (logpar : Manager Hlp) {p : Hlp}
    (built : logpar.buildFieldParser field tokens = .ok p) : Buildable field := by
  obtain ⟨isSchemaField, checked, later⟩ := Search.bind_ok_iff.mp built
  obtain ⟨chosen, typed, -⟩ := Search.bind_ok_iff.mp later
  obtain ⟨wildcard, rfl⟩ | ⟨named, path⟩ := of_isSchemaField_ok checked
  · simpa [Buildable, wildcard] using of_parserType_ok typed
  · simpa [Buildable, named] using path

/-- In every configuration the parsers of literals and fields raise, if at all, a runtime error. -/
theorem leaves_of (logpar : Manager Hlp) :
    Leaves logpar.m_maxGroupRecursion (fun failure => ∃ message, failure = .runtimeError message)
      logpar where
  limit_eq := rfl
  field := by
    intro field tokens
    have defined := defined_buildFieldParser logpar field tokens
    cases built : logpar.buildFieldParser field tokens with
    | ok p => exact .returns (by simpa [Met] using buildable_of_ok logpar built)
    | error failure => exact .fails (defined failure built)
  literal := by
    intro value
    have defined := defined_construct logpar .literal ⟨value, [], [], [value]⟩
    cases built : logpar.buildLiteralParser value with
    | ok p => exact .pure p
    | error failure => exact .fails (defined failure built)

/-- A configuration in which every name is in the schema and every builder succeeds. -/
def generous (limit : Nat) : Manager Unit where
  m_maxGroupRecursion := limit
  m_schemaValidator := some fun _ => .ok .schema
  getParser := fun _ => .ok .text
  m_parserBuilders := fun _ => some fun _ => .ok ()
  opt := id
  choice := fun _ _ => ()
  all := fun _ => ()

theorem generous_builds (limit : Nat) (tokens : List Text) (buildable : Buildable field) :
    ∃ p, (generous limit).buildFieldParser field tokens = .ok p := by
  rw [Buildable] at buildable
  split at buildable
  · rename_i wildcard
    cases args : field.args with
    | nil => exact ⟨_, by simp [Manager.buildFieldParser, Manager.isSchemaField, generous, wildcard,
        Manager.parserType, args, Manager.construct]; rfl⟩
    | cons arg later =>
      have known := buildable arg (by simp [args])
      exact ⟨_, by simp [Manager.buildFieldParser, Manager.isSchemaField, generous, wildcard,
        Manager.parserType, args, Manager.construct, known]; rfl⟩
  · rename_i named
    obtain ⟨path, parsed⟩ := buildable
    exact ⟨_, by simp [Manager.buildFieldParser, Manager.isSchemaField, generous, named,
        Manager.parserType, Manager.construct, parsed]; rfl⟩

theorem leaves_generous (limit : Nat) : Leaves limit (fun _ => False) (generous limit) where
  limit_eq := rfl
  field := by
    intro field tokens
    by_cases buildable : Buildable field
    · obtain ⟨p, built⟩ := generous_builds limit tokens buildable
      rw [built]
      exact .returns (by simpa [Met] using buildable)
    · cases built : (generous limit).buildFieldParser field tokens with
      | ok p => exact absurd (buildable_of_ok _ built) buildable
      | error failure =>
        obtain ⟨message, rfl⟩ := defined_buildFieldParser _ field tokens failure built
        exact .single ⟨buildable, id⟩
  literal := fun value => .pure ()

theorem Demand.Unfinished.not_met {limit : Nat} {demand : Demand} (unfinished : demand.Unfinished) :
    ¬ Met limit demand := by
  cases demand with
  | level | field => exact unfinished.elim
  | tokens children => exact fun resolved => resolved.not_unfinished unfinished

theorem not_met_of_fault {limit : Nat} (demand : Demand) (failure : Failure)
    (fault : Fault limit demand failure) : ¬ Met limit demand := by
  cases failure with
  | runtimeError message => exact fault.1
  | pastEnd => exact Demand.Unfinished.not_met fault
  | emptyFront => exact fault.elim

/-- **Which expressions the builder is defined on.** With a given limit for groups, the builder
returns or raises a runtime error in every configuration if and only if, in the order of the
builder, the first demand that is not met is no unfinished group: a group whose groups, or whose
first group without a literal, lead to nothing. -/
theorem builder_defined_iff (infos : List ParserInfo) (limit : Nat) :
    (∀ (Hlp : Type) (logpar : Manager Hlp), logpar.m_maxGroupRecursion = limit →
        Defined (logpar.buildParsers infos 0)) ↔
      ∀ before demand after, demands infos 0 = before ++ demand :: after →
        (∀ d ∈ before, Met limit d) → ¬ demand.Unfinished := by
  constructor
  · intro defined before demand after split met unfinished
    have walks := buildParsers_walks (leaves_generous limit) infos 0
    rw [split] at walks
    have unmet : ¬ Met limit demand := fun met => unfinished.not_met met
    obtain ⟨failure, failed, fault⟩ := walks.of_first_unmet (by simp) not_met_of_fault met unmet
    obtain ⟨message, rfl⟩ := defined Unit (generous limit) rfl failure failed
    exact fault.2 unfinished
  · intro finished Hlp logpar same failure failed
    subst same
    have walks := buildParsers_walks (leaves_of logpar) infos 0
    rw [failed] at walks
    obtain ⟨before, demand, after, split, met, fault⟩ | own := walks.of_error
    · cases failure with
      | runtimeError message => exact ⟨message, rfl⟩
      | pastEnd => exact absurd fault (finished before demand after split met)
      | emptyFront => exact fault.elim
    · exact own

/-- A field before a group whose only child is a group: the end of the group is read for a
literal, in every configuration. -/
theorem group_of_groups_undefined : pLogpar "<f>(?(?a))".toList =
        some ([.field ⟨['f'], [], false⟩, .group [.group [.literal ['a']]]], []) ∧
      ∀ (Hlp : Type) (logpar : Manager Hlp),
        logpar.buildParsers [.field ⟨['f'], [], false⟩, .group [.group [.literal ['a']]]] 0 =
          .error .pastEnd := by
  have text : "<f>(?(?a))".toList = ['<', 'f', '>', '(', '?', '(', '?', 'a', ')', ')'] := by simp
  constructor
  · rw [text]
    rfl
  · intro Hlp logpar
    simp [Manager.buildParsers, Manager.buildEach, groupEndToken, groupEndTokenFrom, bind,
      Except.bind]

end configurations

end GuardSarm.Logpar
