import GuardSarm.Lib.Text

/-!
# Compiled patterns

`OSRegex_Compile` rewrites a pattern in place (the letter behind a backslash
becomes the number of its class, a closing parenthesis an opening one, and
capitals small letters) and cuts it at the bars. The classes are the rows of
`regexmap`, as the ranges of the characters that are set in them.
-/

namespace GuardSarm.Regex

/-- `charmap`. -/
def charmap (c : Char) : Char := c.toLower

def inRanges (ranges : List (Nat × Nat)) (c : Char) : Bool :=
  ranges.any fun range => decide (range.1 ≤ c.toNat) && decide (c.toNat ≤ range.2)

/-- The rows of `regexmap`. -/
def regexmap : Nat → List (Nat × Nat)
  | 0 => [(48, 57)]
  | 1 => [(48, 57)]
  | 2 => [(45, 45), (48, 57), (64, 90), (95, 95), (97, 122)]
  | 3 => [(32, 32)]
  | 4 => [(33, 46), (58, 63), (91, 91), (93, 93), (123, 125)]
  | 5 => [(40, 40)]
  | 6 => [(41, 41)]
  | 7 => [(92, 92)]
  | 8 => [(0, 47), (58, 255)]
  | 9 => [(0, 44), (46, 47), (58, 63), (91, 94), (96, 96), (123, 255)]
  | 10 => [(0, 31), (33, 255)]
  | 11 => [(0, 255)]
  | 12 => [(9, 9)]
  | 13 => [(36, 36)]
  | 14 => [(124, 124)]
  | 15 => [(60, 60)]
  | _ => []

/-- `Regex(x, y)`. -/
def regex (x y : Char) : Bool := inRanges (regexmap x.toNat) y

/-- The number of the class that a letter behind a backslash names. -/
def classCode : Char → Option Nat
  | 'd' => some 1
  | 'w' => some 2
  | 's' => some 3
  | 'p' => some 4
  | '(' => some 5
  | ')' => some 6
  | '\\' => some 7
  | 'D' => some 8
  | 'W' => some 9
  | 'S' => some 10
  | '.' => some 11
  | 't' => some 12
  | '$' => some 13
  | '|' => some 14
  | '<' => some 15
  | _ => none

def osPatternMaxsize : Nat := 20480

inductive CompileError where
  | maxsize | badregex | badparenthesis
  deriving DecidableEq

/-- The flags of `OSRegex_Compile`. -/
structure CompileFlags where
  caseSensitive : Bool
  returnSubstring : Bool

/-- The first loop of `OSRegex_Compile`, with the number of open parentheses. -/
def translate (caseSensitive : Bool) : Int → Text → Except CompileError Text
  | parenthesis, [] => if parenthesis ≠ 0 then .error .badparenthesis else .ok []
  | _, ['\\'] => .error .badregex
  | parenthesis, '\\' :: c :: rest =>
    match classCode c with
    | none => .error .badregex
    | some k => do return '\\' :: Char.ofNat k :: (← translate caseSensitive parenthesis rest)
  | parenthesis, c :: rest =>
    let parenthesis := if c = '(' then parenthesis + 1 else if c = ')' then parenthesis - 1
      else parenthesis
    -- open and closed are the same internally
    let c := if c = ')' then '(' else c
    if parenthesis ≠ 0 ∧ parenthesis ≠ 1 then .error .badparenthesis
    else
      let c := if caseSensitive then c else charmap c
      if c = '|' ∧ parenthesis ≠ 0 then .error .badparenthesis
      else do return c :: (← translate caseSensitive parenthesis rest)

structure SubPattern where
  pattern : Text
  beginSet : Bool
  endSet : Bool
  deriving DecidableEq

/-- The flags of a sub pattern, and what is left of its text. -/
def subPattern (text : Text) : SubPattern :=
  let beginSet := text.head? = some '^'
  let text := if beginSet then text.tail else text
  let endSet := text.getLast? = some '$'
  ⟨if endSet then text.dropLast else text, beginSet, endSet⟩

structure OSRegex where
  patterns : List SubPattern
  /-- The closures are recorded for the substrings. -/
  prtsClosure : Bool
  deriving DecidableEq

/-- `OSRegex_Compile`. -/
def compile (pattern : Text) (flags : CompileFlags) : Except CompileError OSRegex :=
  if osPatternMaxsize < pattern.length then .error .maxsize
  else do
    let newStr ← translate flags.caseSensitive 0 pattern
    return ⟨(newStr.splitOn '|').map subPattern, newStr.contains '(' && flags.returnSubstring⟩

end GuardSarm.Regex
