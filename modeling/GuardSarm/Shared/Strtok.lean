import GuardSarm.Lib.Text

/-! Splitting a command line. `w_strtok` cuts a line at its blanks, except for those in double
quotes. A token is collected from fragments, and the accumulator is null as long as it has none, so
that two quotes with nothing between them are a token of their own. -/
namespace GuardSarm.Strtok

open List

/-- `w_strcat`. The first string may be null. -/
def wStrcat (a : Option Text) (b : Text) : Text := a.getD [] ++ b

def wStrarrayAppend (array : List Text) (string : Text) : List Text := array ++ [string]

/-- The loop of `w_strtok`, with the characters from `i` up to where `strpbrk` has come, and those
that follow. -/
def wStrtokFrom (quoting : Bool) (accum : Option Text) (output : List Text) :
    Text → Text → List Text
  | i, [] =>
    match if i = [] then accum else some (wStrcat accum i) with
    | some token => wStrarrayAppend output token
    | none => output
  | i, ' ' :: rest =>
    if quoting then wStrtokFrom quoting (some (wStrcat accum (i ++ [' ']))) output [] rest
    else
      match if i = [] then accum else some (wStrcat accum i) with
      | some token => wStrtokFrom quoting none (wStrarrayAppend output token) [] rest
      | none => wStrtokFrom quoting none output [] rest
  | i, '"' :: rest =>
    wStrtokFrom (!quoting) (if i ≠ [] ∨ quoting then some (wStrcat accum i) else accum) output [] rest
  | i, '\\' :: c :: rest =>
    let accum := if i = [] then accum else some (wStrcat accum i)
    wStrtokFrom quoting (some (wStrcat accum [c])) output [] rest
  | i, ['\\'] =>
    wStrtokFrom quoting (if i = [] then accum else some (wStrcat accum i)) output [] []
  | i, c :: rest => wStrtokFrom quoting accum output (i ++ [c]) rest

def wStrtok (string : Text) : List Text := wStrtokFrom false none [] [] string

/-- The text in double quotes, with a backslash before each double quote and backslash. -/
def quoted (text : Text) : Text :=
  '"' :: text.flatMap (fun c => if c = '"' ∨ c = '\\' then ['\\', c] else [c]) ++ ['"']

def commandLine (texts : List Text) : Text := [' '].intercalate (texts.map quoted)

variable {accum : Option Text} {output : List Text}

/-- Within quotes every character is collected: by induction on the text. -/
theorem wStrtokFrom_inside (text i rest : Text) :
    wStrtokFrom true accum output i
        (text.flatMap (fun c => if c = '"' ∨ c = '\\' then ['\\', c] else [c]) ++ '"' :: rest) =
      wStrtokFrom false (some (wStrcat accum (i ++ text))) output [] rest := by
  induction text generalizing accum i with
  | nil => simp [wStrtokFrom]
  | cons c text ih =>
    rw [flatMap_cons, append_assoc]
    by_cases special : c = '"' ∨ c = '\\'
    · -- the backslash is passed over, and what was read before it is collected
      rw [if_pos special, cons_append, singleton_append, wStrtokFrom, ih]
      by_cases nothing : i = [] <;> simp [nothing, wStrcat]
    · rw [if_neg special, singleton_append]
      rw [not_or] at special
      by_cases blank : c = ' '
      · subst blank
        rw [wStrtokFrom, if_pos rfl, ih]
        simp [wStrcat]
      · rw [wStrtokFrom, ih] <;> simp_all

/-- A quoted text is one token, also where it is empty. -/
theorem wStrtokFrom_quoted (text rest : Text) :
    wStrtokFrom false none output [] (quoted text ++ rest) =
      wStrtokFrom false (some text) output [] rest := by
  rw [quoted, cons_append, cons_append, append_assoc, wStrtokFrom]
  exact wStrtokFrom_inside text [] rest

theorem wStrtokFrom_commandLine (text : Text) (texts : List Text) :
    wStrtokFrom false none output [] (commandLine (text :: texts)) = output ++ text :: texts := by
  induction texts generalizing text output with
  | nil =>
    have alone := @wStrtokFrom_quoted output text []
    rw [append_nil] at alone
    simp [commandLine, alone, wStrtokFrom, wStrarrayAppend]
  | cons next texts ih =>
    have line : commandLine (text :: next :: texts) =
        quoted text ++ ' ' :: commandLine (next :: texts) := by
      simp [commandLine, intercalate_cons_cons]
    rw [line, wStrtokFrom_quoted, wStrtokFrom, if_neg (by simp), if_pos rfl]
    simp only [ih, wStrarrayAppend, append_assoc, singleton_append]

/-- **Splitting undoes quoting**: a command line of quoted texts is split into these texts. -/
theorem strtok_undoes_quoting (texts : List Text) : wStrtok (commandLine texts) = texts := by
  cases texts with
  | nil => rfl
  | cons text texts => exact wStrtokFrom_commandLine text texts

end GuardSarm.Strtok
