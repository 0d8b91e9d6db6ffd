import GuardSarm.Regex.Compile

/-!
# The matcher

`_OS_Regex` walks over a string with a pointer into the pattern. Both
pointers are the texts that they point to. `iterate` is one pass of its loop
with the increment of `st`; the loop ends in `finish`. The four saved points
`pt_error` are filled in order and emptied in reverse, so they are a stack of
at most four.
-/

namespace GuardSarm.Regex

/-- The arguments of `_OS_Regex`; `closures` tells that `prts_closure` is set. -/
structure Config where
  pattern : Text
  str : Text
  beginSet : Bool
  endSet : Bool
  closures : Bool

structure State where
  st : Text
  pt : Text
  matched : Bool
  rCode : Option Int
  stError : Option Text
  ptError : List (Text × Text)

inductive Step where
  | returns (rCode : Option Int)
  | continues (s : State)

def isPlus (c : Char) : Bool := c == '+' || c == '*'

/-- `*(pt + i)`. -/
def charAt (pt : Text) (i : Nat) : Char := pt.getD i nul

/-- `PRTS`. -/
def skipParen : Text → Text
  | '(' :: pt => pt
  | pt => pt

variable (cfg : Config)

/-- A pointer into the string as its distance from the start. -/
def Config.offset (st : Text) : Int := cfg.str.length - st.length

/-- The error handling at the end of the loop. -/
def errorHandling (s : State) : Step :=
  match s.ptError with
  | (pt, st) :: ptError => .continues { s with pt := pt, st := st.tail, ptError := ptError }
  | [] =>
    if cfg.beginSet then .returns none
    else .continues { s with
      st := (s.stError.getD s.st).tail, pt := cfg.pattern, rCode := none, stError := none }

/-- `ok_here` for the pattern behind a class with `+` or `*`, none for -1. -/
def lookAhead (c : Char) (next : Text) : Option Nat :=
  if next = [] then some 1
  else if charAt next 0 = '\\' then
    if regex (charAt next 1) c then some (if isPlus (charAt next 2) then 0 else 2) else none
  else if charAt next 0 = charmap c then some 1
  else none

/-- A saved point is dropped when there is no room. -/
def save (point : Text × Text) (ptError : List (Text × Text)) : List (Text × Text) :=
  if ptError.length < 4 then point :: ptError else ptError

/-- The class at `pt` has matched the character. -/
def classMatched (s : State) (c : Char) : Step :=
  let next := s.pt.drop 2
  let r := some (cfg.offset s.st)
  if !isPlus (charAt next 0) then
    .continues { s with pt := next, st := s.st.tail, rCode := r, stError := s.stError.or (some s.st) }
  else if s.matched || charAt next 0 == '*' then
    let next := skipParen (next.drop 1)
    match lookAhead c next with
    | none => .continues { s with matched := true, st := s.st.tail, rCode := r }
    | some okHere =>
      if next = [] then .continues { s with matched := true, st := s.st.tail }
      else .continues { s with
        matched := charAt next 0 == '\\', pt := next.drop okHere, st := s.st.tail, rCode := r,
        ptError := save (s.pt, s.st) s.ptError }
  else .continues { s with matched := true, st := s.st.tail, rCode := r }

/-- The class at `pt` has not matched the character. The first branch is for the end of the pattern
at `pt + 2` or `pt + 3`. -/
def classFailed (s : State) : Step :=
  if s.pt.drop 3 = [] ∧ s.matched = true ∧ s.rCode.isSome then
    if !cfg.endSet then .returns (some (cfg.offset s.st))
    else errorHandling cfg { s with matched := false, rCode := some (cfg.offset s.st) }
  else if charAt s.pt 2 = '+' ∧ s.matched = true then
    .continues { s with pt := s.pt.drop 3, matched := false }
  else if charAt s.pt 2 = '*' then
    .continues { s with pt := s.pt.drop 3, matched := false, rCode := some (cfg.offset s.st - 1) }
  else errorHandling cfg { s with matched := false }

/-- The loop behind its `switch`, for the character `c` at `st`. -/
def body (s : State) (c : Char) : Step :=
  match s.pt with
  | [] => errorHandling cfg s
  | '\\' :: _ => if regex (charAt s.pt 1) c then classMatched cfg s c else classFailed cfg s
  | p :: pt =>
    if p = charmap c then
      .continues { s with
        pt := pt, st := s.st.tail, rCode := some (cfg.offset s.st), stError := s.stError.or (some s.st) }
    else errorHandling cfg s

/-- `ENDOFFILE`, with the pointer that it leaves. -/
def endOfFile (pt : Text) : Bool × Text := (skipParen pt == [], skipParen pt)

/-- A class with `*` and nothing behind it. -/
def lastStar (pt : Text) : Bool × Text :=
  if charAt pt 0 = '\\' then
    if charAt (pt.drop 2) 0 = '*' then endOfFile (pt.drop 3) else (false, pt.drop 2)
  else (false, pt)

/-- The second alternative of the last condition. -/
def lastRepeated (matched : Bool) (pt : Text) : Bool × Text :=
  if charAt pt 0 = '\\' ∧ matched = true then
    if isPlus (charAt (pt.drop 2) 0) then
      let (ended, pt) := endOfFile (pt.drop 3)
      if ended then (true, pt) else lastStar pt
    else (false, pt.drop 2)
  else (false, pt)

/-- The search for a last parenthesis leaves out classes with `*`. -/
def skipStars : Text → Text
  | '\\' :: _ :: '*' :: pt => skipStars pt
  | pt => pt

/-- What follows the loop. Each alternative of the last condition starts where the one before it has
moved the pointer to. -/
def finish (s : State) : Option Int :=
  let pt := if cfg.closures then skipStars s.pt else s.pt
  let (ended, pt) := endOfFile pt
  if ended then s.rCode
  else
    let (ended, pt) := lastRepeated s.matched pt
    if ended then s.rCode
    else if (lastStar pt).1 then s.rCode else none

/-- One pass of the loop, or its end. The `switch` leaves out a parenthesis and reports the match at
the end of the pattern. -/
def iterate (s : State) : Step :=
  match s.st with
  | [] => .returns (finish cfg s)
  | c :: _ =>
    if skipParen s.pt = [] ∧ !cfg.endSet then .returns s.rCode
    else body cfg { s with pt := skipParen s.pt } c

def start : State := ⟨cfg.str, cfg.pattern, false, some 0, none, []⟩

/-- `_OS_Regex`, for a number of passes that is given; none when they do not suffice. -/
def osRegexFrom : Nat → State → Option (Option Int)
  | 0, _ => none
  | fuel + 1, s =>
    match iterate cfg s with
    | .returns rCode => some rCode
    | .continues s => osRegexFrom fuel s

def osRegex (fuel : Nat) : Option (Option Int) := osRegexFrom cfg fuel (start cfg)

/-- The call of `_OS_Regex` for a sub pattern. -/
def OSRegex.config (reg : OSRegex) (str : Text) (sub : SubPattern) : Config :=
  ⟨sub.pattern, str, sub.beginSet, sub.endSet, reg.prtsClosure⟩

/-- `OSRegex_Execute`: the result of the first sub pattern that matches. -/
def execute (fuel : Nat) (reg : OSRegex) (str : Text) : Option (Option Int) :=
  reg.patterns.foldr (fun sub rest =>
    match osRegex (reg.config str sub) fuel with
    | none => none
    | some (some r) => some (some r)
    | some none => rest) (some none)

end GuardSarm.Regex
