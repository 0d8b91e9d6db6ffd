import GuardSarm.Lib.Text

/-!
# Delimited values

The parser of the engine for lines of values with a delimiter, a quote and an
escape character (`getField`, `updateDoc`, `dsvParserFunction`). A quote looks
one character ahead, also where it is the last character of its view, so the
character that follows in memory is a parameter. Positions are kept in
`size_t` and handed out as `int`.
-/

namespace GuardSarm.Hlp

/-- A number of `size_t` as an `int`. -/
def toInt (n : Nat) : Int := if n % 2 ^ 32 < 2 ^ 31 then n % 2 ^ 32 else n % 2 ^ 32 - 2 ^ 32

/-- A number of `int` as a `size_t`. -/
def toSize (n : Int) : Nat := (n % 2 ^ 64).toNat

structure Field where
  m_start : Nat
  m_end : Nat
  m_isEscaped : Bool
  m_isQuoted : Bool
  deriving DecidableEq

namespace Field

def «end» (field : Field) : Int := toInt field.m_end

def len (field : Field) : Int :=
  if field.m_isQuoted then toInt (toSize (field.m_end - field.m_start - 2))
  else toInt (toSize (field.m_end - field.m_start))

def start (field : Field) : Int :=
  if field.m_isQuoted then toInt (field.m_start + 1) else toInt field.m_start

end Field

/-- The variables of the loop of `getField`. -/
structure Scan where
  lastEscapeLocation : Nat
  quoteOpened : Bool
  isEscaped : Bool
  isQuoted : Bool
  deriving DecidableEq

section

variable (delimiter quote escape : Char) (strict : Bool)

/-- One character that does not end the field. The field is refused where a quote opens in its
middle. -/
def scanChar (i : Nat) (previous c next : Char) (scan : Scan) : Option Scan :=
  let scan :=
    if scan.quoteOpened && quote != escape && c == escape
    then { scan with lastEscapeLocation := i } else scan
  if c ≠ quote then some scan
  else if !scan.quoteOpened then
    if strict && decide (1 < i) && previous != delimiter then none
    else some { scan with
      quoteOpened := true
      lastEscapeLocation := if quote = escape then i else scan.lastEscapeLocation }
  else
    let escaped := decide (scan.lastEscapeLocation + 1 = i) && decide (1 < i)
    some {
      isEscaped := scan.isEscaped || escaped
      lastEscapeLocation := if escaped then scan.lastEscapeLocation else i
      quoteOpened := escaped || next != delimiter
      isQuoted := true }

/-- The loop, from the character with index `i` on. `behind` is what follows the view in memory. -/
def scanFrom (behind : Char) : Nat → Char → Text → Scan → Option Field
  | i, previous, [], scan =>
    if scan.quoteOpened && previous != quote then none
    else some ⟨0, i, scan.isEscaped, scan.isQuoted⟩
  | i, previous, c :: rest, scan =>
    if c = delimiter ∧ scan.quoteOpened = false then some ⟨0, i, scan.isEscaped, scan.isQuoted⟩
    else
      match scanChar delimiter quote escape strict i previous c (rest.headD behind) scan with
      | none => none
      | some scan => scanFrom behind (i + 1) c rest scan

def getField (behind : Char) (input : Text) : Option Field :=
  if input = [] then some ⟨0, 0, false, false⟩
  else scanFrom delimiter quote escape strict behind 0 quote input ⟨0, false, false, false⟩

end

/-- `unescape`: an escape character is erased and the one that follows it is passed over. -/
def unescape (escape : Char) : Text → Text
  | [] => []
  | c :: rest =>
    if c = escape then
      match rest with
      | [] => []
      | d :: rest => d :: unescape escape rest
    else c :: unescape escape rest

def convertDotToSlash (key : Text) : Text := key.map fun c => if c = '.' then '/' else c

/-- What is written to the document, and where. -/
structure Assignment where
  path : Text
  value : Option Text
  deriving DecidableEq

inductive DsvError where
  | invalidPointer (path : Text)
  | outOfRange
  /-- An `int` that overflows. -/
  | undefined
  deriving DecidableEq

/-- A JSON pointer: a tilde is followed by 0 or 1. -/
def validPointer : Text → Bool
  | [] => true
  | c :: rest => (c != '~' || rest.head?.any "01".toList.contains) && validPointer rest

/-- `setNull` and `setString`. -/
def set (path : Text) (value : Option Text) : Except DsvError Assignment :=
  if validPointer path then .ok ⟨path, value⟩ else .error (.invalidPointer path)

def updateDoc (key value : Text) (isEscaped : Bool) (escape : Char) : Except DsvError Assignment :=
  if value = [] then set key none
  else
    set (convertDotToSlash key) (some (if isEscaped then unescape escape value else value))

/-- `substr` of a view. -/
def substr (view : Text) (position count : Nat) : Except DsvError Text :=
  if position > view.length then .error .outOfRange else .ok ((view.drop position).take count)

/-- `start += fValue.end() + 1`, where the sum of the two `int` may overflow. -/
def advance (start : Nat) (field : Field) : Except DsvError Nat :=
  if field.end = 2 ^ 31 - 1 then .error .undefined
  else .ok ((start + toSize (field.end + 1)) % 2 ^ 64)

section

variable (delimiterChar quoteChar escapeChar : Char)

/-- The loop over the headers: the position reached, the headers left and what was assigned. -/
def readFields (behind : Char) (parsed : Text) :
    List Text → Nat → List Assignment → Except DsvError (Nat × List Text × List Assignment)
  | [], start, doc => .ok (start, [], doc)
  | header :: headers, start, doc =>
    if parsed.length < start then .ok (start, header :: headers, doc)
    else
      match getField delimiterChar quoteChar escapeChar true behind (parsed.drop start) with
      | none => .ok (start, header :: headers, doc)
      | some fValue => do
        let v ← substr (parsed.drop start) (toSize fValue.start) (toSize fValue.len)
        let assignment ← updateDoc header v fValue.m_isEscaped escapeChar
        let start ← advance start fValue
        readFields behind parsed headers start (doc ++ [assignment])

end

/-- One end token: the rest of the text from its first place on, which is not the first character.
The empty token is the end of the text. -/
def toEndToken (endToken input : Text) : Option Text :=
  if endToken = [] then (if input = [] then none else some [])
  else
    match input.tails.find? endToken.isPrefixOf with
    | none => none
    | some suffix => if suffix.length = input.length then none else some suffix

def toEnd (endTokens : List Text) (input : Text) : Option Text :=
  endTokens.findSome? (toEndToken · input)

/-- What a parser returns: the parsed text with what is mapped to the target, and the rest; or a
failure, with the text that it points to. -/
inductive Result where
  | success (parsed : Text) (doc : Option (List Assignment)) (remaining : Text)
  | failure (remaining : Text)
  deriving DecidableEq

def fieldNotFound : Text := "No fields found".toList

/-- The parser that `dsvParserFunction` returns, for at least one end token. -/
def dsvParser (endTokens : List Text) (delimiterChar quoteChar escapeChar : Char)
    (headers : List Text) (targetField : Text) (memory : Char) (txt : Text) :
    Except DsvError Result :=
  match toEnd endTokens txt with
  | none => .ok (.failure txt)
  | some remaining => do
    let parsed := txt.take (txt.length - remaining.length)
    let (start, left, doc) ← readFields delimiterChar quoteChar escapeChar (remaining.headD memory)
      parsed headers 0 []
    if start = 0 then return .failure fieldNotFound
    else if left ≠ [] ∨ start - 1 ≠ parsed.length then
      return .failure (← substr txt (start - 1) txt.length)
    else return .success parsed (if targetField = [] then none else some doc) remaining

/-- `getDSVParser`, for options of one character and at least two headers. -/
def getDsvParser (stop : List Text) (delimiter quote escape : Char) (headers : List Text)
    (targetField : Text) (memory : Char) : Text → Except DsvError Result :=
  dsvParser stop delimiter quote escape (headers.map ('/' :: ·)) targetField memory

/-- `getCSVParser`, for at least two headers. -/
def csvParser (stop : List Text) (options : List Text) (targetField : Text) (memory : Char) :
    Text → Except DsvError Result :=
  dsvParser stop ',' '"' '"' (options.map ('/' :: ·)) targetField memory

end GuardSarm.Hlp
