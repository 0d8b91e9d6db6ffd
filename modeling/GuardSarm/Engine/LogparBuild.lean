import GuardSarm.Engine.Logpar
import GuardSarm.Lib.Requirements

/-!
# Building the parsers of an expression

`buildParsers` turns the syntax tree of a logpar expression into a parser. A
field is delimited by what follows it, so that the builder looks ahead: past the
groups that follow (`getEndToken`) and into them (`groupEndToken`). What the
source leaves undefined is a failure of its own here: the element behind the end
of a list (`pastEnd`), the front of an empty list (`emptyFront`).
-/

namespace GuardSarm.Logpar

inductive ParserType where
  | binary | errorType | csv | dsv | json | kv | xml | byte | double | float | halfFloat | integer
  | long | scaledFloat | short | unsignedLong | alphanumeric | bool | date | file | fqdn | ignore
  | ip | uri | userAgent | between | literal | quoted | text
  deriving DecidableEq

def parserTypeToStr : ParserType → String
  | .alphanumeric => "alphanumeric"
  | .between => "between"
  | .binary => "binary"
  | .bool => "bool"
  | .byte => "byte"
  | .csv => "csv"
  | .date => "date"
  | .double => "double"
  | .dsv => "dsv"
  | .file => "file"
  | .float => "float"
  | .fqdn => "fqdn"
  | .halfFloat => "half_float"
  | .ignore => "ignore"
  | .ip => "ip"
  | .json => "json"
  | .kv => "kv"
  | .literal => "literal"
  | .long => "long"
  | .quoted => "quoted"
  | .scaledFloat => "scaled_float"
  | .text => "text"
  | .uri => "uri"
  | .userAgent => "useragent"
  | .xml => "xml"
  | .unsignedLong => "unsigned_long"
  | .integer => "integer"
  | .short => "short"
  | .errorType => "error_type"

/-- The types that have a name in an expression, in the order in which they are tried. -/
def namedTypes : List ParserType :=
  [.long, .double, .float, .halfFloat, .scaledFloat, .byte, .text, .literal, .quoted, .between,
    .binary, .csv, .dsv, .json, .xml, .kv, .bool, .userAgent, .ip, .date, .uri, .fqdn, .file,
    .ignore, .alphanumeric, .unsignedLong, .integer, .short]

def strToParserType (str : Text) : ParserType :=
  (namedTypes.find? fun type => (parserTypeToStr type).toList == str).getD .errorType

inductive Failure where
  | runtimeError (message : String)
  | pastEnd
  | emptyFront
  deriving DecidableEq

inductive TargetFieldKind where
  | schema
  | temporary
  deriving DecidableEq

structure Params where
  name : Text
  targetField : Text
  stop : List Text
  options : List Text

section paths

/-- The parts of a path; the part that is being read comes last, in reverse. -/
def splitEscapedFrom (splitChar escape : Char) (part : Text) : Text → List Text
  | [] => [part.reverse]
  | c :: text =>
    match text with
    | [] => if c = splitChar then [part.reverse, []] else [(c :: part).reverse]
    | next :: rest =>
      if c = escape then
        if next = escape ∨ next = splitChar then splitEscapedFrom splitChar escape (next :: part) rest
        else splitEscapedFrom splitChar escape (c :: part) (next :: rest)
      else if c = splitChar then part.reverse :: splitEscapedFrom splitChar escape [] (next :: rest)
      else splitEscapedFrom splitChar escape (c :: part) (next :: rest)

def splitEscaped (input : Text) (splitChar escape : Char) : List Text :=
  splitEscapedFrom splitChar escape [] input

structure DotPath where
  str : Text
  parts : List Text

def raise {α : Type} (message : String) : Except Failure α := .error (.runtimeError message)

def DotPath.parse (str : Text) : Except Failure DotPath :=
  if str = [] then .ok ⟨str, []⟩
  else
    let parts := splitEscaped str '.' '\\'
    if [] ∈ parts ∧ str ≠ ['.'] then raise "DotPath cannot have empty parts" else .ok ⟨str, parts⟩

/-- A leading dot is optional and the empty path is the root. -/
def dotPath (str : Text) : Except Failure DotPath :=
  DotPath.parse (if str.head? = some '.' then str.tail else str)

def slashDots (prevCharWasSlash : Bool) : Text → Text
  | [] => []
  | c :: text =>
    let rest := slashDots (c == '\\') text
    if c = '.' ∧ prevCharWasSlash = false then '/' :: rest
    else if c ≠ '\\' ∨ prevCharWasSlash then c :: rest
    else rest

def formatJsonPath (path : Text) : Text :=
  if path = ['.'] then []
  else
    let escaped := path.flatMap fun c =>
      if c = '~' then ['~', '0'] else if c = '/' then ['~', '1'] else [c]
    let pointer := slashDots false escaped
    if pointer.head? = some '/' then pointer else '/' :: pointer

end paths

def exprWildcard : Text := ['~']

def Field.toStr (field : Field) : Text :=
  Syntax.exprBegin :: ((if field.optional then [Syntax.exprOpt] else []) ++ field.name ++
    (if field.args = [] then [] else [Syntax.exprArgSep]) ++
    [Syntax.exprArgSep].intercalate field.args ++ [Syntax.exprEnd])

/-- What a builder of parsers is given: the schema, if it is still there, the parser of each
schema field, the registered builders, and the combinators of parsers. -/
structure Manager (Hlp : Type) where
  m_maxGroupRecursion : Nat
  m_schemaValidator : Option (DotPath → Except String TargetFieldKind)
  getParser : Text → Except String ParserType
  m_parserBuilders : ParserType → Option (Params → Except String Hlp)
  opt : Hlp → Hlp
  choice : Hlp → Hlp → Hlp
  all : List Hlp → Hlp

namespace Manager

variable {Hlp : Type} (logpar : Manager Hlp)

def construct (type : ParserType) (params : Params) : Except Failure Hlp :=
  match logpar.m_parserBuilders type with
  | none => raise ("Parser type '" ++ parserTypeToStr type ++ "' not found")
  | some builder => (builder params).mapError .runtimeError

def buildLiteralParser (value : Text) : Except Failure Hlp :=
  logpar.construct .literal ⟨value, [], [], [value]⟩

/-- The target of a field is checked against the schema, unless the field is the wildcard. -/
def isSchemaField (field : Field) : Except Failure Bool :=
  match logpar.m_schemaValidator with
  | none => raise "Logpar tried to get schema but it was not available"
  | some validateTargetField =>
    if field.name = exprWildcard then .ok false
    else do
      let path ← dotPath field.name
      let kind ← (validateTargetField path).mapError .runtimeError
      return kind == .schema

/-- The first argument of a field that is not in the schema names its parser. -/
def parserType (field : Field) (isSchemaField : Bool) : Except Failure (ParserType × List Text) :=
  if isSchemaField then do
    let type ← (logpar.getParser field.name).mapError .runtimeError
    return (type, field.args)
  else
    match field.args with
    | [] => .ok (.text, [])
    | arg :: args =>
      if strToParserType arg = .errorType
      then raise ("Parser type '" ++ String.ofList arg ++ "' not found")
      else .ok (strToParserType arg, args)

def buildFieldParser (field : Field) (endTokens : List Text) : Except Failure Hlp := do
  let isSchemaField ← logpar.isSchemaField field
  let (type, args) ← logpar.parserType field isSchemaField
  let p ← logpar.construct type {
    name := field.toStr
    targetField := if field.name = exprWildcard then [] else formatJsonPath field.name
    stop := endTokens
    options := args }
  return if field.optional then logpar.opt p else p

def buildChoiceParser (choice : Choice) (endTokens : List Text) : Except Failure Hlp := do
  let p1 ← logpar.buildFieldParser choice.left []
  let p2 ← logpar.buildFieldParser choice.right endTokens
  return logpar.choice p1 p2

end Manager

section endTokens

mutual

/-- The end tokens of a group: its first literal, behind the tokens of the groups before it. -/
def groupEndToken : List ParserInfo → Except Failure (List Text)
  | [] => .error .pastEnd
  | .literal value :: _ => .ok [value]
  | .group children :: rest => do
    let tokens ← groupEndToken children
    let later ← groupEndTokenFrom rest
    return tokens ++ later
  | .field _ :: _ | .choice _ :: _ =>
    raise "Group must start with a literal or a succession of groups and a literal"

/-- The loop over the groups that a group starts with, behind the first of them. -/
def groupEndTokenFrom : List ParserInfo → Except Failure (List Text)
  | [] => .error .pastEnd
  | .literal value :: _ => .ok [value]
  | .group children :: rest => do
    let tokens ← groupEndToken children
    let later ← groupEndTokenFrom rest
    return tokens ++ later
  | .field _ :: _ | .choice _ :: _ => raise "Group must be followed by a literal"

end

/-- The end tokens of an element that `infos` follow. The end of the line is the empty token. -/
def getEndToken : List ParserInfo → Except Failure (List Text)
  | [] => .ok [[]]
  | .literal value :: _ => .ok [value]
  | .group children :: rest => do
    let afterTokens ← getEndToken rest
    if afterTokens = [] then return []
    else
      let insideTokens ← groupEndToken children
      return insideTokens ++ afterTokens
  | .field _ :: _ | .choice _ :: _ => .ok []

def front : List Text → Except Failure Text
  | [] => .error .emptyFront
  | token :: _ => .ok token

def groupCount : List ParserInfo → Nat
  | .group _ :: rest => groupCount rest + 1
  | _ => 0

end endTokens

namespace Manager

variable {Hlp : Type} (logpar : Manager Hlp)

mutual

def buildParsers (parserInfos : List ParserInfo) (recurLvl : Nat) : Except Failure Hlp :=
  if logpar.m_maxGroupRecursion < recurLvl then raise "Max group recursion level reached"
  else do
    let parsers ← buildEach parserInfos recurLvl
    return logpar.all parsers
termination_by (sizeOf parserInfos, 1)

/-- The loop of `buildParsers`. -/
def buildEach : List ParserInfo → Nat → Except Failure (List Hlp)
  | [], _ => .ok []
  | .field field :: .group children :: rest, recurLvl => do
    -- the field alone, or the field and the group
    let endTokens ← groupEndToken children
    let token ← front endTokens
    let pF ← logpar.buildFieldParser field [token]
    let pG ← buildParsers children (recurLvl + 1)
    let endToken2 ← getEndToken rest
    let choice2 ← logpar.buildFieldParser field endToken2
    let parsers ← buildEach rest recurLvl
    return logpar.choice (logpar.all [pF, pG]) choice2 :: parsers
  | .field field :: rest, recurLvl => do
    let endTokens ← getEndToken rest
    let p ← logpar.buildFieldParser field endTokens
    let parsers ← buildEach rest recurLvl
    return p :: parsers
  | .literal value :: rest, recurLvl => do
    let p ← logpar.buildLiteralParser value
    let parsers ← buildEach rest recurLvl
    return p :: parsers
  | .choice choice :: rest, recurLvl => do
    let endTokens ← getEndToken rest
    let p ← logpar.buildChoiceParser choice endTokens
    let parsers ← buildEach rest recurLvl
    return p :: parsers
  | .group children :: rest, recurLvl =>
    if logpar.m_maxGroupRecursion < groupCount rest + 1
    then raise "Max group recursion level reached"
    else do
      let p ← buildParsers children (recurLvl + 1)
      let parsers ← buildEach rest recurLvl
      return logpar.opt p :: parsers
termination_by parserInfos => (sizeOf parserInfos, 0)

end

end Manager

end GuardSarm.Logpar
