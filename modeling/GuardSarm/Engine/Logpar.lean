import GuardSarm.Lib.Parsec

/-!
# Logpar expressions

The syntax of the expressions that describe a log line, and their parser
(`pEscapedChar` up to `pLogpar`). The question mark has three meanings: an
optional field, the choice between two fields and the start of a group.
-/

namespace GuardSarm.Logpar

open Parsec

namespace Syntax

def exprBegin : Char := '<'
def exprEnd : Char := '>'
def exprOpt : Char := '?'
def exprEscape : Char := '\\'
def exprArgSep : Char := '/'
def exprGroupBegin : Char := '('
def exprGroupEnd : Char := ')'
def exprFieldSep : Char := '.'
def exprFieldExtendedCharsFirst : Text := ['_', '@', '#', '~']
def exprFieldExtendedChars : Text := ['_', '@', '#']

end Syntax

structure Field where
  name : Text
  args : List Text
  optional : Bool
  deriving DecidableEq

structure Choice where
  left : Field
  right : Field
  deriving DecidableEq

inductive ParserInfo where
  | literal (value : Text)
  | field (field : Field)
  | choice (choice : Choice)
  | group (children : List ParserInfo)

section characters

def pChar (chars : Text) : Parser Char := satisfy fun c => decide (c ∈ chars)

def pNotChar (chars : Text) : Parser Char := satisfy fun c => decide (c ∉ chars)

def pEscapedChar (chars : Text) (esc : Char) : Parser Char :=
  second (pChar [esc]) (pChar (chars ++ [esc]))

/-- One character of a text, as itself or behind the escape. -/
def pRawChar (reservedChars : Text) (esc : Char) : Parser Char :=
  either (pNotChar (reservedChars ++ [esc])) (pEscapedChar reservedChars esc)

def pRawLiteral (reservedChars : Text) (esc : Char) : Parser Text :=
  many (pRawChar reservedChars esc)

def pRawLiteral1 (reservedChars : Text) (esc : Char) : Parser Text :=
  many1 (pRawChar reservedChars esc)

def isAlphaNum (extended : Text) (c : Char) : Bool :=
  (decide ('a' ≤ c) && decide (c ≤ 'z')) || (decide ('A' ≤ c) && decide (c ≤ 'Z')) ||
    (decide ('0' ≤ c) && decide (c ≤ '9')) || decide (c ∈ extended)

def pCharAlphaNum (extended : Text) : Parser Char := satisfy (isAlphaNum extended)

end characters

section parsers

def pArg : Parser Text :=
  second (pChar [Syntax.exprArgSep])
    (pRawLiteral [Syntax.exprArgSep, Syntax.exprEnd] Syntax.exprEscape)

def pArgs : Parser (List Text) := many pArg

def pFieldName : Parser Text :=
  fmap (fun read => read.1 :: read.2)
    (both (pCharAlphaNum Syntax.exprFieldExtendedCharsFirst)
      (many (pCharAlphaNum (Syntax.exprFieldExtendedChars ++ [Syntax.exprFieldSep]))))

def pField : Parser Field :=
  first
    (second (pChar [Syntax.exprBegin])
      (fmap (fun read => ⟨read.1.2, read.2, decide (read.1.1 ≠ nul)⟩)
        (both (both (opt nul (pChar [Syntax.exprOpt])) pFieldName) pArgs)))
    (pChar [Syntax.exprEnd])

def reservedLiteralChars : Text :=
  [Syntax.exprBegin, Syntax.exprOpt, Syntax.exprGroupBegin, Syntax.exprGroupEnd]

def pLiteral : Parser Text := pRawLiteral1 reservedLiteralChars Syntax.exprEscape

def pChoice : Parser Choice := fun text =>
  match both (first pField (pChar [Syntax.exprOpt])) pField text with
  | none => none
  | some ((f1, f2), rest) =>
    if f1.optional then none
    else if f2.optional then none
    else some (⟨f1, f2⟩, rest)

/-- One element of an expression that is no group. -/
def pElement : Parser ParserInfo :=
  either (either (fmap .choice pChoice) (fmap .field pField)) (fmap .literal pLiteral)

def pExpr : Parser (List ParserInfo) := many1 pElement

/-- A run of elements or one group, where `pGroup` reads the groups. -/
def pItem (pGroup : Parser (List ParserInfo)) : Parser (List ParserInfo) :=
  either pExpr (fmap (fun children => [.group children]) pGroup)

def pBody (pGroup : Parser (List ParserInfo)) : Parser (List ParserInfo) :=
  fmap List.flatten (many1 (pItem pGroup))

/-- The body of `pG`, where `pGroup` reads the groups inside. -/
def pG (pGroup : Parser (List ParserInfo)) : Parser (List ParserInfo) :=
  first
    (second (both (pChar [Syntax.exprGroupBegin]) (pChar [Syntax.exprOpt])) (pBody pGroup))
    (pChar [Syntax.exprGroupEnd])

/-- The parser of groups down to a depth of nesting. -/
def pGroupAt : Nat → Parser (List ParserInfo)
  | 0 => fun _ => none
  | depth + 1 => pG (pGroupAt depth)

/-- No text holds a deeper nesting than its length. -/
def pGroup : Parser (List ParserInfo) := fun text => pGroupAt text.length text

def pLogpar : Parser (List ParserInfo) := first (pBody pGroup) eof

end parsers

section progress

theorem progresses_pRawChar (reservedChars : Text) (esc : Char) :
    Progresses (pRawChar reservedChars esc) := by
  apply progresses_either (progresses_satisfy _)
  exact progresses_second (progresses_satisfy _) (progresses_satisfy _).nonGrowing

theorem progresses_pArg : Progresses pArg :=
  progresses_second (progresses_satisfy _) (nonGrowing_many (progresses_pRawChar _ _).nonGrowing)

theorem progresses_pFieldName : Progresses pFieldName :=
  progresses_fmap (progresses_both (progresses_satisfy _)
    (nonGrowing_many (progresses_satisfy _).nonGrowing))

theorem progresses_pField : Progresses pField := by
  have name : NonGrowing (both (opt nul (pChar [Syntax.exprOpt])) pFieldName) :=
    nonGrowing_both (nonGrowing_opt (progresses_satisfy _).nonGrowing)
      progresses_pFieldName.nonGrowing
  have inside := nonGrowing_both name (nonGrowing_many progresses_pArg.nonGrowing)
  exact progresses_first (progresses_second (progresses_satisfy _) (nonGrowing_fmap inside))
    (progresses_satisfy _).nonGrowing

theorem of_pChoice {text rest : Text} {choice : Choice} (read : pChoice text = some (choice, rest)) :
    both (first pField (pChar [Syntax.exprOpt])) pField text =
        some ((choice.left, choice.right), rest) ∧
      choice.left.optional = false ∧ choice.right.optional = false := by
  unfold pChoice at read
  split at read
  · cases read
  · rename_i f1 f2 left fields
    split at read
    · cases read
    · split at read
      · cases read
      · rename_i plain1 plain2
        cases read
        exact ⟨fields, by simpa using plain1, by simpa using plain2⟩

theorem progresses_pElement : Progresses pElement := by
  have choice : Progresses pChoice := by
    intro text value rest read
    refine progresses_both ?_ progresses_pField.nonGrowing _ _ _ (of_pChoice read).1
    exact progresses_first progresses_pField (progresses_satisfy _).nonGrowing
  have literal : Progresses pLiteral := progresses_many1 (progresses_pRawChar _ _)
  exact progresses_either (progresses_either (progresses_fmap choice)
    (progresses_fmap progresses_pField)) (progresses_fmap literal)

variable {p q : Parser (List ParserInfo)}

theorem progresses_pItem (progresses : Progresses p) : Progresses (pItem p) :=
  progresses_either (progresses_many1 progresses_pElement) (progresses_fmap progresses)

theorem progresses_groupStart :
    Progresses (both (pChar [Syntax.exprGroupBegin]) (pChar [Syntax.exprOpt])) :=
  progresses_both (progresses_satisfy _) (progresses_satisfy _).nonGrowing

theorem progresses_pG (progresses : Progresses p) : Progresses (pG p) := by
  have body : Progresses (pBody p) := progresses_fmap (progresses_many1 (progresses_pItem progresses))
  exact progresses_first (progresses_second progresses_groupStart body.nonGrowing)
    (progresses_satisfy _).nonGrowing

theorem progresses_pGroupAt (depth : Nat) : Progresses (pGroupAt depth) := by
  induction depth with
  | zero => intro text value rest read; cases read
  | succ depth ih => exact progresses_pG ih

/-- A group starts with two characters, so that the groups inside are in a shorter text. -/
theorem pG_congr {text : Text} (progresses : Progresses p)
    (same : ∀ other : Text, other.length < text.length → p other = q other) :
    pG p text = pG q text := by
  have body : ∀ value middle,
      both (pChar [Syntax.exprGroupBegin]) (pChar [Syntax.exprOpt]) text = some (value, middle) →
        pBody p middle = pBody q middle := by
    intro value middle read
    have shorter := progresses_groupStart _ _ _ read
    apply fmap_congr
    apply many1_congr (progresses_pItem progresses)
    intro other small
    simp only [pItem, either, fmap, same other (small.trans_lt shorter)]
  exact fmap_congr (both_congr_left (fmap_congr (both_congr body)))

theorem pGroupAt_nil (depth : Nat) : pGroupAt depth [] = none := by
  cases depth <;> rfl

theorem pGroupAt_stable (depth : Nat) :
    ∀ (other : Nat) (text : Text), text.length ≤ depth → text.length ≤ other →
      pGroupAt depth text = pGroupAt other text := by
  induction depth with
  | zero =>
    intro other text short _
    obtain rfl := List.length_eq_zero_iff.mp (Nat.le_zero.mp short)
    rw [pGroupAt_nil, pGroupAt_nil]
  | succ depth ih =>
    intro other text short enough
    cases other with
    | zero =>
      obtain rfl := List.length_eq_zero_iff.mp (Nat.le_zero.mp enough)
      rw [pGroupAt_nil, pGroupAt_nil]
    | succ other =>
      exact pG_congr (progresses_pGroupAt depth) fun inner shorter =>
        ih other inner (by omega) (by omega)

/-- **The recursion of the source.** The bound on the depth is never met: the parser of groups is
the one that reads the groups inside with itself. -/
theorem pGroup_eq : pGroup = pG pGroup := by
  funext text
  calc pGroup text = pGroupAt (text.length + 1) text :=
        pGroupAt_stable _ _ _ le_rfl (Nat.le_succ _)
    _ = pG pGroup text := pG_congr (progresses_pGroupAt _) fun inner shorter =>
        pGroupAt_stable _ _ _ shorter.le le_rfl

theorem progresses_pGroup : Progresses pGroup := by
  intro text value rest read
  exact progresses_pGroupAt _ _ _ _ read

end progress

section groups

variable {p : Parser (List ParserInfo)} {text rest : Text} {infos : List ParserInfo}

end groups

end GuardSarm.Logpar
