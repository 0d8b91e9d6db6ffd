import GuardSarm.Lib.Text

/-!
# Dot paths and JSON pointers

A field is named by a dot path. `DotPath` splits it into parts and
`Json::formatJsonPath` turns it into a JSON pointer; both read a backslash as
an escape, one by looking ahead and the other by looking back.
-/

namespace GuardSarm.Base

open List

/-- `splitEscaped` with the segment that is being read. -/
def splitEscapedFrom (splitChar escape : Char) (segment : Text) : Text → List Text
  | [] => [segment]
  | [c] => if c = splitChar then [segment, []] else [segment ++ [c]]
  | c :: d :: rest =>
    if c = escape then
      if d = escape ∨ d = splitChar then splitEscapedFrom splitChar escape (segment ++ [d]) rest
      else splitEscapedFrom splitChar escape (segment ++ [c]) (d :: rest)
    else if c = splitChar then segment :: splitEscapedFrom splitChar escape [] (d :: rest)
    else splitEscapedFrom splitChar escape (segment ++ [c]) (d :: rest)

def splitEscaped (input : Text) (splitChar escape : Char) : List Text :=
  splitEscapedFrom splitChar escape [] input

structure DotPath where
  str : Text
  parts : List Text
  deriving DecidableEq

/-- The path without its optional leading dot. -/
def undotted (str : Text) : Text := if str.head? = some '.' then str.tail else str

/-- `DotPath::parse`; `none` where it throws. -/
def DotPath.parse (str : Text) : Option DotPath :=
  let str := undotted str
  if str = [] then some ⟨str, []⟩
  else
    let parts := splitEscaped str '.' '\\'
    if parts.any (fun part => part.isEmpty && str != ['.']) then none else some ⟨str, parts⟩

/-- A character of a part in a JSON pointer. -/
def escapeChar (c : Char) : Text :=
  if c = '~' then ['~', '0'] else if c = '/' then ['~', '1'] else [c]

def escape (part : Text) : Text := part.flatMap escapeChar

def pointer (parts : List Text) : Text := parts.flatMap fun part => '/' :: escape part

theorem pointer_cons (part : Text) (parts : List Text) :
    pointer (part :: parts) = '/' :: (escape part ++ pointer parts) := rfl

/-- The loop of `formatJsonPath` that replaces the dots. -/
def dotsToSlashes : Bool → Text → Text
  | _, [] => []
  | prevCharWasSlash, c :: rest =>
    (if c = '.' ∧ !prevCharWasSlash then ['/']
      else if c ≠ '\\' ∨ (c = '.' ∨ c = '\\') ∧ prevCharWasSlash then [c] else []) ++
      dotsToSlashes (c == '\\') rest

def formatJsonPath (dotPath : Text) (skipDot : Bool) : Text :=
  if !skipDot && dotPath == ['.'] then []
  else
    let ptrPath := (dotPath.flatMap fun c => if c = '~' then ['~', '0'] else [c]).flatMap
      fun c => if c = '/' then ['~', '1'] else [c]
    let ptrPath := if skipDot then ptrPath else dotsToSlashes false ptrPath
    if ptrPath = [] then ['/'] else if ptrPath.head? = some '/' then ptrPath else '/' :: ptrPath

/-- What a reading makes of a run of backslashes: how many it keeps, before a dot and
otherwise, and whether a dot behind it separates. -/
structure Reading where
  beforeDot : Nat → Nat
  elsewhere : Nat → Nat
  separates : Nat → Bool

def split : Reading := ⟨fun n => n / 2, fun n => (n + 1) / 2, fun n => n % 2 == 0⟩

def format : Reading := ⟨fun n => n - 1, fun n => n - 1, fun n => n == 0⟩

/-- The pointer text of a path that is read behind a run of backslashes. -/
def render (r : Reading) : Nat → Text → Text
  | run, [] => List.replicate (r.elsewhere run) '\\'
  | run, c :: rest =>
    if c = '\\' then render r (run + 1) rest
    else if c = '.' then
      List.replicate (r.beforeDot run) '\\' ++ (if r.separates run then '/' else '.') :: render r 0 rest
    else List.replicate (r.elsewhere run) '\\' ++ (escapeChar c ++ render r 0 rest)

/-- Two readings agree on the runs of a path. -/
def Agree (r r' : Reading) : Nat → Text → Prop
  | run, [] => r.elsewhere run = r'.elsewhere run
  | run, c :: rest =>
    if c = '\\' then Agree r r' (run + 1) rest
    else (if c = '.' then r.beforeDot run = r'.beforeDot run ∧ r.separates run = r'.separates run
      else r.elsewhere run = r'.elsewhere run) ∧ Agree r r' 0 rest

/-- Before a dot there is at most one backslash, and elsewhere there are two or three
together or none. -/
def PlainEscapes : Nat → Text → Prop
  | run, [] => run = 0 ∨ run = 2 ∨ run = 3
  | run, c :: rest =>
    if c = '\\' then PlainEscapes (run + 1) rest
    else (if c = '.' then run ≤ 1 else run = 0 ∨ run = 2 ∨ run = 3) ∧ PlainEscapes 0 rest

theorem agree_iff_plainEscapes (run : Nat) (path : Text) :
    Agree format split run path ↔ PlainEscapes run path := by
  have elsewhere (n : Nat) : n - 1 = (n + 1) / 2 ↔ n = 0 ∨ n = 2 ∨ n = 3 := by omega
  have beforeDot (n : Nat) : n - 1 = n / 2 ∧ (n == 0) = (n % 2 == 0) ↔ n ≤ 1 := by
    rw [Bool.eq_iff_iff, beq_iff_eq, beq_iff_eq]
    omega
  induction path generalizing run with
  | nil => exact elsewhere run
  | cons c rest ih =>
    simp only [Agree, PlainEscapes, ih]
    simp only [format, split, elsewhere, beforeDot]

theorem escapeChar_cases (c : Char) : ∃ d u, escapeChar c = d :: u ∧
    d ≠ '/' ∧ '/' ∉ u ∧ (c ≠ '\\' → d ≠ '\\') := by
  unfold escapeChar
  split
  · exact ⟨_, _, rfl, by decide, by decide, fun _ => by decide⟩
  · split
    · exact ⟨_, _, rfl, by decide, by decide, fun _ => by decide⟩
    · exact ⟨_, _, rfl, ‹_›, not_mem_nil, id⟩

theorem replicate_append_inj {m n : Nat} {b c d : Char} {u v : Text} (hc : c ≠ b) (hd : d ≠ b) :
    List.replicate m b ++ c :: u = List.replicate n b ++ d :: v ↔ m = n ∧ c = d ∧ u = v := by
  induction m generalizing n with
  | zero =>
    cases n with
    | zero => simp
    | succ n => simp [replicate_succ, hc]
  | succ m ih =>
    cases n with
    | zero => simp [replicate_succ, hd.symm]
    | succ n => simp [replicate_succ, ih]

/-- **Two readings give one pointer exactly if they agree on every run.** -/
theorem render_eq_iff (r r' : Reading) (run : Nat) (path : Text) :
    render r run path = render r' run path ↔ Agree r r' run path := by
  induction path generalizing run with
  | nil => simp [render, Agree]
  | cons c rest ih =>
    simp only [render, Agree]
    by_cases backslash : c = '\\'
    · rw [if_pos backslash, if_pos backslash, if_pos backslash, ih]
    by_cases dot : c = '.'
    · have plain (b : Bool) : (if b then '/' else '.') ≠ '\\' := by cases b <;> decide
      have distinct (b b' : Bool) :
          (if b then '/' else '.') = (if b' then '/' else '.') ↔ b = b' := by
        cases b <;> cases b' <;> decide
      simp only [if_neg backslash, if_pos dot, replicate_append_inj (plain _) (plain _), distinct,
        ih, and_assoc]
    · obtain ⟨d, u, written, _, _, plain⟩ := escapeChar_cases c
      simp only [if_neg backslash, if_neg dot, written, cons_append,
        replicate_append_inj (plain backslash) (plain backslash), append_cancel_left_eq, ih,
        true_and]

theorem splitEscapedFrom_run (segment : Text) (run : Nat) (rest : Text) :
    splitEscapedFrom '.' '\\' segment (List.replicate run '\\' ++ rest) =
      splitEscapedFrom '.' '\\' (segment ++ List.replicate (run / 2) '\\')
        (List.replicate (run % 2) '\\' ++ rest) := by
  induction run using Nat.twoStepInduction generalizing segment with
  | zero => simp
  | one => simp
  | more run ih _ =>
    have half : (run + 2) / 2 = run / 2 + 1 := by omega
    have odd : (run + 2) % 2 = run % 2 := by omega
    rw [replicate_succ, replicate_succ, cons_append, cons_append,
      splitEscapedFrom, if_pos rfl, if_pos (.inl rfl), ih, half, odd, replicate_succ,
      append_assoc, singleton_append]

theorem escape_append (u v : Text) : escape (u ++ v) = escape u ++ escape v := List.flatMap_append

@[simp]
theorem escape_replicate (n : Nat) : escape (List.replicate n '\\') = List.replicate n '\\' := by
  induction n with
  | zero => rfl
  | succ n ih => rw [replicate_succ, escape, flatMap_cons, ← escape, ih]; rfl

/-- Without a backslash in front, a segment ends at a dot and goes on at any other character. -/
theorem splitEscapedFrom_cons (segment rest : Text) {c : Char} (plain : c ≠ '\\') :
    splitEscapedFrom '.' '\\' segment (c :: rest) =
      if c = '.' then segment :: splitEscapedFrom '.' '\\' [] rest
      else splitEscapedFrom '.' '\\' (segment ++ [c]) rest := by
  cases rest with
  | nil => rfl
  | cons d rest => rw [splitEscapedFrom, if_neg plain]

theorem splitEscapedFrom_backslash (segment rest : Text) {c : Char} (plain : c ≠ '\\') :
    splitEscapedFrom '.' '\\' segment ('\\' :: c :: rest) =
      if c = '.' then splitEscapedFrom '.' '\\' (segment ++ ['.']) rest
      else splitEscapedFrom '.' '\\' (segment ++ ['\\', c]) rest := by
  rw [splitEscapedFrom, if_pos rfl]
  by_cases dot : c = '.'
  · simp [dot]
  · simp [dot, plain, splitEscapedFrom_cons]

theorem pointer_splitEscapedFrom (segment : Text) (run : Nat) (path : Text) :
    pointer (splitEscapedFrom '.' '\\' segment (List.replicate run '\\' ++ path)) =
      '/' :: (escape segment ++ render split run path) := by
  induction path generalizing segment run with
  | nil =>
    rw [splitEscapedFrom_run]
    have kept : List.replicate ((run + 1) / 2) '\\' =
        List.replicate (run / 2) '\\' ++ List.replicate (run % 2) '\\' := by
      rw [← replicate_add]
      congr 1
      omega
    rcases Nat.mod_two_eq_zero_or_one run with even | odd
    · simp [even, splitEscapedFrom, pointer, render, split, kept, escape_append]
    · simp [odd, splitEscapedFrom, pointer, render, split, kept, escape_append]
      rfl
  | cons c rest ih =>
    by_cases backslash : c = '\\'
    · have longer : List.replicate run '\\' ++ '\\' :: rest =
          List.replicate (run + 1) '\\' ++ rest := by
        rw [replicate_succ', append_assoc, singleton_append]
      rw [backslash, longer, ih, render, if_pos rfl]
    rw [splitEscapedFrom_run, render, if_neg backslash]
    have next (segment : Text) := ih segment 0
    simp only [replicate_zero, nil_append] at next
    rcases Nat.mod_two_eq_zero_or_one run with even | odd
    · have half : (run + 1) / 2 = run / 2 := by omega
      rw [even, replicate_zero, nil_append, splitEscapedFrom_cons _ _ backslash]
      by_cases dot : c = '.'
      · simp only [if_pos dot, pointer_cons, next, escape_append, escape_replicate, split, even]
        simp [escape]
      · simp only [if_neg dot, next, escape_append, escape_replicate, split, half]
        simp [escape]
    · have half : (run + 1) / 2 = run / 2 + 1 := by omega
      rw [odd, replicate_one, singleton_append, splitEscapedFrom_backslash _ _ backslash]
      by_cases dot : c = '.'
      · simp only [if_pos dot, next, escape_append, escape_replicate, split, odd]
        simp [escape, escapeChar]
      · simp only [if_neg dot, next, escape_append, escape_replicate, split, half]
        simp [escape, escapeChar, replicate_succ']

theorem pointer_splitEscaped (path : Text) :
    pointer (splitEscaped path '.' '\\') = '/' :: render split 0 path :=
  pointer_splitEscapedFrom [] 0 path


/-- The loop keeps all backslashes of a run but the first. -/
theorem dotsToSlashes_escape (run : Nat) (path : Text) :
    List.replicate (run - 1) '\\' ++ dotsToSlashes (decide (0 < run)) (escape path) =
      render format run path := by
  induction path generalizing run with
  | nil => simp [escape, dotsToSlashes, render, format]
  | cons c rest ih =>
    have next := ih 0
    simp only [Nat.lt_irrefl, decide_false, Nat.zero_sub, replicate_zero, nil_append]
      at next
    rw [render, escape, flatMap_cons, ← escape]
    by_cases backslash : c = '\\'
    · have more := ih (run + 1)
      rw [if_pos backslash, ← more, backslash]
      cases run with
      | zero => simp [escapeChar, dotsToSlashes]
      | succ run => simp [escapeChar, dotsToSlashes, replicate_succ']
    rw [if_neg backslash]
    by_cases dot : c = '.'
    · cases run with
      | zero => simp [dot, escapeChar, dotsToSlashes, next, format]
      | succ run => simp [dot, escapeChar, dotsToSlashes, next, format]
    · rw [if_neg dot]
      unfold escapeChar
      split
      · simp [dotsToSlashes, next, format]
      · split
        · simp [dotsToSlashes, next, format]
        · have other : (c == '\\') = false := beq_false_of_ne backslash
          simp [dotsToSlashes, next, other, backslash, dot]
          rfl

/-- Only a dot at the start gives a slash at the start. -/
theorem head_render_format {path : Text} {run : Nat} (plain : 0 < run ∨ path.head? ≠ some '.') :
    (render format run path).head? ≠ some '/' := by
  have kept (n : Nat) {rest : Text} (other : rest.head? ≠ some '/') :
      (List.replicate n '\\' ++ rest).head? ≠ some '/' := by
    cases n with
    | zero => exact other
    | succ n => simp [replicate_succ]
  induction path generalizing run with
  | nil =>
    rw [render, ← append_nil (List.replicate _ _)]
    exact kept _ (by simp)
  | cons c rest ih =>
    rw [render]
    by_cases backslash : c = '\\'
    · rw [if_pos backslash]
      exact ih (.inl run.succ_pos)
    rw [if_neg backslash]
    by_cases dot : c = '.'
    · have pending : run ≠ 0 := by simpa [dot, Nat.pos_iff_ne_zero] using plain
      rw [if_pos dot]
      exact kept _ (by simp [format, pending])
    · obtain ⟨d, u, written, noSlash, _⟩ := escapeChar_cases c
      rw [if_neg dot]
      exact kept _ (by simp [written, noSlash])

theorem escape_eq (path : Text) :
    (path.flatMap fun c => if c = '~' then ['~', '0'] else [c]).flatMap
      (fun c => if c = '/' then ['~', '1'] else [c]) = escape path := by
  rw [flatMap_assoc, escape]
  congr 1
  funext c
  by_cases tilde : c = '~'
  · simp [escapeChar, tilde]
  · simp [escapeChar, tilde]

/-- `formatJsonPath` away from the path that names the root. -/
theorem formatJsonPath_eq {path : Text} (other : path ≠ ['.']) :
    formatJsonPath path false = '/' :: render format 0 (undotted path) := by
  have written : dotsToSlashes false (escape path) = render format 0 path := by
    simpa using dotsToSlashes_escape 0 path
  simp only [formatJsonPath, escape_eq, written, Bool.not_false, Bool.true_and,
    beq_eq_false_iff_ne.mpr other, Bool.false_eq_true, if_false]
  by_cases leading : path.head? = some '.'
  · obtain ⟨rest, rfl⟩ := head?_eq_some_iff.mp leading
    simp [undotted, render, format]
  · have plain := @head_render_format path 0 (.inr leading)
    rw [undotted, if_neg leading, if_neg plain]
    split
    · next none => rw [none]
    · rfl

theorem pointer_parts {path : Text} {dotPath : DotPath} (accepted : DotPath.parse path = some dotPath) :
    dotPath.str = undotted path ∧ pointer dotPath.parts =
      if undotted path = [] then [] else '/' :: render split 0 (undotted path) := by
  simp only [DotPath.parse] at accepted
  split at accepted
  · next root =>
    cases accepted
    exact ⟨rfl, by rw [if_pos root]; rfl⟩
  · next inner =>
    split at accepted
    · cases accepted
    · cases accepted
      exact ⟨rfl, by rw [if_neg inner, pointer_splitEscaped]⟩

/-- **A path is the pointer of its parts exactly if it is not empty and its runs of
backslashes are plain.** -/
theorem formatJsonPath_iff (path : Text) (dotPath : DotPath)
    (accepted : DotPath.parse path = some dotPath) :
    formatJsonPath path false = pointer dotPath.parts ↔ path ≠ [] ∧ PlainEscapes 0 path := by
  rw [(pointer_parts accepted).2]
  by_cases dot : path = ['.']
  · subst dot
    simp [formatJsonPath, undotted, PlainEscapes]
  rw [formatJsonPath_eq dot]
  have inner : undotted path = [] ↔ path = [] := by
    cases path with
    | nil => simp [undotted]
    | cons c rest =>
      by_cases leading : c = '.'
      · simpa [undotted, leading] using dot
      · simp [undotted, leading]
  have escapes : PlainEscapes 0 (undotted path) ↔ PlainEscapes 0 path := by
    unfold undotted
    split
    · next leading =>
      obtain ⟨rest, rfl⟩ := head?_eq_some_iff.mp leading
      simp [PlainEscapes]
    · rfl
  by_cases empty : path = []
  · simp [empty, undotted]
  · rw [if_neg (inner.not.mpr empty), List.cons.injEq, render_eq_iff, agree_iff_plainEscapes, escapes]
    simp [empty]

theorem formatJsonPath_iff_escaped_dot :
    formatJsonPath ['a', '\\', '.', 'b', '.', 'c'] false = pointer [['a', '.', 'b'], ['c']] ↔
      ['a', '\\', '.', 'b', '.', 'c'] ≠ [] ∧ PlainEscapes 0 ['a', '\\', '.', 'b', '.', 'c'] :=
  formatJsonPath_iff _ ⟨['a', '\\', '.', 'b', '.', 'c'], [['a', '.', 'b'], ['c']]⟩ (by decide)

/-- An escaped backslash before a separator: the parts are `a\` and `b`, and the pointer
has the one part `a\.b`. -/
theorem formatJsonPath_joins_parts : DotPath.parse ['a', '\\', '\\', '.', 'b'] =
        some ⟨['a', '\\', '\\', '.', 'b'], [['a', '\\'], ['b']]⟩ ∧
      formatJsonPath ['a', '\\', '\\', '.', 'b'] false = ['/', 'a', '\\', '.', 'b'] ∧
      pointer [['a', '\\'], ['b']] = ['/', 'a', '\\', '/', 'b'] := by
  decide

end GuardSarm.Base
