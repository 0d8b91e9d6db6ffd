import GuardSarm.Lib.Text

/-!
# Quoted values

The parser of the engine for a value in quotes. The syntactic pass skips what
stands behind an escape character, the semantic pass erases every escape
character.

* `synParser_encode`: the text of a value is accepted up to its closing quote,
  whatever follows.
-/

namespace GuardSarm.Hlp.Quoted

open List

section

variable (quote escape : Char)

/-- The loop of the syntactic pass: what follows the closing quote. -/
def findClosing : Bool → Text → Option Text
  | _, [] => none
  | true, c :: rest => if c ≠ quote ∧ c ≠ escape then none else findClosing false rest
  | false, c :: rest =>
    if c = escape then findClosing true rest
    else if c = quote then some rest
    else findClosing false rest

def synParser : Text → Option Text
  | [] => none
  | c :: rest => if c ≠ quote then none else findClosing quote escape false rest

/-- The value of the semantic pass, for a text with its two quotes. -/
def semParser (parsed : Text) : Text := parsed.tail.dropLast.filter (· != escape)

/-- The value and what is left of the text. -/
def parse (txt : Text) : Option (Text × Text) :=
  (synParser quote escape txt).map fun remaining =>
    (semParser escape (txt.take (txt.length - remaining.length)), remaining)

end

/-- The quote and the escape character that the options of `getQuotedParser` give. -/
def getQuotedParser (options : List Text) : Except String (Char × Char) :=
  match options with
  | _ :: _ :: _ :: _ => .error ("Quoted parser requires 0, 1 or 2 parameters." ++
      " The first parameter is the quote character, the second is the escape character")
  | [] => .ok ('"', '\\')
  | [[quoteChar]] => different quoteChar '\\' [quoteChar]
  | [[quoteChar], [escapeChar]] => different quoteChar escapeChar [quoteChar]
  | [[_], option] => .error ("Quoted parser requires a single character as escape character. Got: "
      ++ String.ofList option)
  | option :: _ => .error ("Quoted parser requires a single character as delimiter. Got: "
      ++ String.ofList option)
where
  different (quoteChar escapeChar : Char) (option : Text) : Except String (Char × Char) :=
    if quoteChar = escapeChar then
      .error ("Quoted parser requires different characters for quote and escape. Got: "
        ++ String.ofList option)
    else .ok (quoteChar, escapeChar)

theorem different_of_ok {quoteChar escapeChar quote escape : Char} {option : Text}
    (configured : getQuotedParser.different quoteChar escapeChar option = .ok (quote, escape)) :
    quote ≠ escape := by
  rw [getQuotedParser.different] at configured
  split at configured
  · cases configured
  · rename_i different
    cases configured
    exact different

theorem getQuotedParser_different {options : List Text} {quote escape : Char}
    (configured : getQuotedParser options = .ok (quote, escape)) : quote ≠ escape := by
  unfold getQuotedParser at configured
  split at configured
  · cases configured
  · cases configured; decide
  · exact different_of_ok configured
  · exact different_of_ok configured
  · cases configured
  · cases configured

section

variable {quote escape : Char}

/-- A value with an escape character before each quote and each escape character. -/
def escaped (quote escape : Char) : Text → Text
  | [] => []
  | c :: value =>
    if c = quote ∨ c = escape then escape :: c :: escaped quote escape value
    else c :: escaped quote escape value

def encode (quote escape : Char) (value : Text) : Text :=
  quote :: (escaped quote escape value ++ [quote])

theorem findClosing_escaped (different : quote ≠ escape) (value rest : Text) :
    findClosing quote escape false (escaped quote escape value ++ quote :: rest) = some rest := by
  induction value with
  | nil => simp [escaped, findClosing, different]
  | cons c value ih =>
    rw [escaped]
    split
    · rename_i special
      obtain rfl | rfl := special <;> simp [findClosing, ih]
    · rename_i plain
      rw [not_or] at plain
      simp [findClosing, plain.1, plain.2, ih]

theorem synParser_encode (different : quote ≠ escape) (value rest : Text) :
    synParser quote escape (encode quote escape value ++ rest) = some rest := by
  simp [encode, synParser, findClosing_escaped different]

/-- Erasing keeps everything of a value but its escape characters. -/
theorem filter_escaped (value : Text) :
    (escaped quote escape value).filter (· != escape) = value.filter (· != escape) := by
  induction value with
  | nil => rfl
  | cons c value ih =>
    rw [escaped]
    split
    · simp [filter_cons, ih]
    · simp [filter_cons, ih]

theorem semParser_encode (value : Text) :
    semParser escape (encode quote escape value) = value.filter (· != escape) := by
  rw [semParser, encode, tail_cons, dropLast_concat, filter_escaped]

theorem parse_encode (different : quote ≠ escape) (value rest : Text) :
    parse quote escape (encode quote escape value ++ rest) =
      some (value.filter (· != escape), rest) := by
  rw [parse, synParser_encode different, Option.map_some, length_append,
    Nat.add_sub_cancel, take_left, semParser_encode]

/-- **A quoted value is read back exactly if it holds no escape character.** The text is accepted
up to its closing quote in any case. -/
theorem quoted_round_trip_iff {options : List Text}
    (configured : getQuotedParser options = .ok (quote, escape)) (value rest : Text) :
    parse quote escape (encode quote escape value ++ rest) = some (value, rest) ↔
      escape ∉ value := by
  rw [parse_encode (getQuotedParser_different configured), Option.some.injEq, Prod.mk.injEq,
    and_iff_left rfl, filter_eq_self]
  constructor
  · intro kept member
    simpa using kept escape member
  · intro missing c member
    rw [bne_iff_ne]
    rintro rfl
    exact missing member

theorem quoted_round_trip_default : getQuotedParser [] = .ok ('"', '\\') ∧
      parse '"' '\\' (encode '"' '\\' "a\"b".toList ++ "c".toList) =
        some ("a\"b".toList, "c".toList) :=
  ⟨rfl, (@quoted_round_trip_iff _ _ [] rfl _ _).mpr (by decide)⟩

/-- A backslash is written as two of them, and both are erased. -/
theorem escape_character_lost : encode '"' '\\' "a\\b".toList = "\"a\\\\b\"".toList ∧
      parse '"' '\\' "\"a\\\\b\"".toList = some ("ab".toList, []) := by
  decide

end

end GuardSarm.Hlp.Quoted
