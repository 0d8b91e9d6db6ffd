import GuardSarm.Engine.Dsv

/-!
# Lists of keys and values

The parser of the engine for lists such as `a=1,b="2,3"`. A syntactic pass finds
out how much of a text is such a list, and a semantic pass cuts that part into
keys and values again. Both search for the next separator or delimiter outside of
quotes; the syntactic pass keeps its quote flag from one search to the next and
looks for both from the start of the key.
-/

namespace GuardSarm.Hlp

/-- The options of `getKVParser`. -/
structure Kv where
  sep : Text
  delim : Text
  quote : Char
  esc : Char
  deriving DecidableEq

def getKvParser (options : List Text) : Except String Kv :=
  match options with
  | [sep, delim, quote, esc] =>
    if sep = [] ∨ delim = [] then
      .error "KV parser: separator and delimiter must be non-empty"
    else
      match quote, esc with
      | [quote], [esc] =>
        if sep = delim then .error "KV parser: separator and delimiter must be different"
        else .ok ⟨sep, delim, quote, esc⟩
      | _, _ => .error "KV parser: quote and escape must be single characters"
  | _ => .error
      "KV parser requires four parameters: separator, delimiter, quote character and escape character"

namespace Kv

variable (kv : Kv)

def isEscaped (text : Text) (i : Nat) : Bool :=
  decide (0 < i) && text[i - 1]? == some kv.esc && kv.esc != kv.quote

/-- The first place from `i` on with the target, outside of quotes and not escaped, and the quote
flag at the end of the search. -/
def findNext (target text : Text) (inQuotes : Bool) (i : Nat) : Option Nat × Bool :=
  if i < text.length then
    if text[i]? = some kv.quote ∧ kv.isEscaped text i = false then
      if kv.quote = kv.esc ∧ text[i + 1]? = some kv.quote then findNext target text inQuotes (i + 2)
      else findNext target text (!inQuotes) (i + 1)
    else if target.isPrefixOf (text.drop i) && !inQuotes && !kv.isEscaped text i then
      (some i, inQuotes)
    else findNext target text inQuotes (i + 1)
  else (none, inQuotes)
termination_by text.length - i

/-- A pair as the syntactic pass delimits it. -/
structure Pair where
  pos : Nat
  sepPos : Nat
  key : Text
  value : Text
  deriving DecidableEq

/-- `substr(pos, end - pos)` of a view, where the count is unsigned. -/
def cut (text : Text) (pos stop : Nat) : Text :=
  if stop < pos then text.drop pos else (text.drop pos).take (stop - pos)

/-- The pair at `pos`, where to go on and the quote flag; or the position at which it is refused. -/
def validateKeyValue (text : Text) (pos : Nat) (inQuotes : Bool) :
    Except Nat (Pair × Nat × Bool) :=
  let (sepPos, inQuotes) := kv.findNext kv.sep text inQuotes pos
  let (delimPos, inQuotes) := kv.findNext kv.delim text inQuotes pos
  match sepPos, delimPos with
  | none, _ => .error pos
  | some sepPos, some delimPos =>
    if delimPos < sepPos ∨ sepPos = pos then .error pos
    else
      .ok (⟨pos, sepPos, cut text pos sepPos, cut text (sepPos + kv.sep.length) delimPos⟩,
        delimPos + kv.delim.length, inQuotes)
  | some sepPos, none =>
    if sepPos = pos then .error pos
    else if inQuotes then .error (sepPos + kv.sep.length)
    else
      .ok (⟨pos, sepPos, cut text pos sepPos, text.drop (sepPos + kv.sep.length)⟩,
        text.length, inQuotes)

/-- The loop of the syntactic pass: the pairs and the position behind the last of them. -/
def synLoop (text : Text) : Nat → Nat → Bool → List Pair × Nat
  | 0, pos, _ => ([], pos)
  | rounds + 1, pos, inQuotes =>
    if pos < text.length then
      match kv.validateKeyValue text pos inQuotes with
      | .error _ => ([], pos)
      | .ok (pair, next, inQuotes) =>
        let (pairs, last) := synLoop text rounds next inQuotes
        (pair :: pairs, last)
    else ([], pos)

/-- The syntactic pass: the pairs of the longest list at the start of the text and its length; or
the text that the failure points to. -/
def synParser (input : Text) : Except Text (List Pair × Nat) :=
  if input = [] then .error input
  else
    match kv.synLoop input input.length 0 false with
    | ([], _) =>
      match kv.validateKeyValue input 0 false with
      | .error pos => .error (input.drop pos)
      | .ok _ => .error input
    | accepted => .ok accepted

/-- The loop of the semantic pass: the keys and values. -/
def semLoop (text : Text) : Nat → Nat → List (Text × Text)
  | 0, _ => []
  | rounds + 1, start =>
    if start < text.length then
      match (kv.findNext kv.sep text false start).1 with
      | none => []
      | some sepPos =>
        let valStart := sepPos + kv.sep.length
        match (kv.findNext kv.delim text false valStart).1 with
        | none => [(cut text start sepPos, text.drop valStart)]
        | some delimPos =>
          (cut text start sepPos, cut text valStart delimPos) ::
            semLoop text rounds (delimPos + kv.delim.length)
    else []

/-- A text between two quotes. -/
def isEnclosed (text : Text) : Bool :=
  decide (2 ≤ text.length) && text.head? == some kv.quote && text.getLast? == some kv.quote

def strip (text : Text) : Text := text.tail.dropLast

/-- Whether an escape character stands before something that it escapes. -/
def hasEscape : Text → Bool
  | [] => false
  | [_] => false
  | c :: d :: rest =>
    (c == kv.esc && (d == kv.quote || d == kv.esc || kv.sep.isPrefixOf (d :: rest) ||
      kv.delim.isPrefixOf (d :: rest))) || hasEscape (d :: rest)

/-- What a key and its value are assigned as: quotes are removed and escapes undone. -/
def processKeyValue (rawKey rawValue : Text) : Except DsvError Assignment :=
  let escapedEndQuote :=
    decide (2 ≤ rawValue.length) && rawValue.getLast? == some kv.quote &&
      rawValue.dropLast.getLast? == some kv.esc
  let value := if kv.isEnclosed rawValue && !escapedEndQuote then strip rawValue else rawValue
  let key := if kv.isEnclosed rawKey then strip rawKey else rawKey
  updateDoc ('/' :: key) value (kv.hasEscape value) kv.esc

/-- The keys and values that the semantic pass cuts out of a text. -/
def semPairs (input : Text) : List (Text × Text) := kv.semLoop input input.length 0

def process (pairs : List (Text × Text)) : Except DsvError (List Assignment) :=
  pairs.mapM fun pair => kv.processKeyValue pair.1 pair.2

def semParser (input : Text) : Except DsvError (List Assignment) := kv.process (kv.semPairs input)

end Kv

end GuardSarm.Hlp
