import GuardSarm.Lib.Text

/-!
# Rules and references in the database

`NormalizeData` stores the two lists of an entry as the text of a JSON array. `NormalizeCheck` and
`NormalizePolicy` read a list back by cutting the text at its commas, with the brackets and the
quotes in it. The other fields of an entry have no part in this.
-/

namespace GuardSarm.Sca.StoredLists

open List

/-- A string, or an array of strings. -/
inductive Field where
  | string (text : Text)
  | array (items : List Text)
  deriving DecidableEq

structure Entry where
  rules : Option Field
  references : Option Field
  refs : Option Field
  deriving DecidableEq

/-- A character in the text of a JSON string. -/
def escape : Char → Text
  | '"' => ['\\', '"']
  | '\\' => ['\\', '\\']
  | '\x08' => ['\\', 'b']
  | '\x0c' => ['\\', 'f']
  | '\n' => ['\\', 'n']
  | '\r' => ['\\', 'r']
  | '\t' => ['\\', 't']
  | c =>
    if c.toNat < 32 then
      ['\\', 'u', '0', '0', (c.toNat / 16).digitChar, (c.toNat % 16).digitChar]
    else [c]

def dumpString (text : Text) : Text := '"' :: (text.flatMap escape ++ ['"'])

/-- `nlohmann::json::dump`. -/
def Field.dump : Field → Text
  | .string text => dumpString text
  | .array items => '[' :: ([','].intercalate (items.map dumpString) ++ [']'])

def normalizeData (entry : Entry) : Entry :=
  let entry := match entry.references with
    | some references => { entry with refs := some (.string references.dump), references := none }
    | none => entry
  match entry.rules with
  | some rules => { entry with rules := some (.string rules.dump) }
  | none => entry

/-- What `getline` reads up to each comma. -/
def tokens (token : Text) : Text → List Text
  | [] => [token]
  | c :: rest => if c = ',' then token :: tokens [] rest else tokens (token ++ [c]) rest

/-- `Utils::trim` for the characters of `" \t\n\r\v\f"`. -/
def trim (token : Text) : Text := (token.rdropWhile isSpace).dropWhile isSpace

def stringToJsonArray (input : Text) : List Text := ((tokens [] input).map trim).filter (· ≠ [])

/-- `NormalizePolicy`. -/
def normalizePolicy (entry : Entry) : Entry :=
  match entry.refs with
  | some (.string refs) =>
    { entry with references := some (.array (stringToJsonArray refs)), refs := none }
  | _ => entry

/-- `NormalizeCheck`, which handles the references in the same way. -/
def normalizeCheck (entry : Entry) : Entry :=
  let entry := normalizePolicy entry
  match entry.rules with
  | some (.string rules) => { entry with rules := some (.array (stringToJsonArray rules)) }
  | _ => entry

theorem count_dropWhile (text : Text) : (text.dropWhile isSpace).count '"' = text.count '"' := by
  induction text with
  | nil => rfl
  | cons c text ih =>
    rw [dropWhile_cons]
    split
    · rename_i space
      have other : c ≠ '"' := by rintro rfl; cases space
      rw [ih, count_cons_of_ne other]
    · rfl

theorem count_trim (token : Text) : (trim token).count '"' = token.count '"' := by
  rw [trim, count_dropWhile, List.rdropWhile, count_reverse, count_dropWhile,
    count_reverse]

theorem count_tokens (token text : Text) :
    (tokens token text).flatten.count '"' = token.count '"' + text.count '"' := by
  induction text generalizing token with
  | nil => simp [tokens]
  | cons c text ih =>
    rw [tokens]
    split
    · rename_i comma
      simp [ih, comma]
    · rw [ih, count_append, count_singleton, count_cons]
      omega

/-- No quote is lost. -/
theorem count_stringToJsonArray (input : Text) :
    (stringToJsonArray input).flatten.count '"' = input.count '"' := by
  have trimmed : List.count '"' ∘ trim = List.count '"' := funext count_trim
  rw [stringToJsonArray, flatten_filter_ne_nil, count_flatten, map_map, trimmed,
    ← count_flatten, count_tokens, count_nil, Nat.zero_add]

theorem count_escape (c : Char) : (escape c).count '"' = [c].count '"' := by
  have digit : ∀ n < 16, Nat.digitChar n ≠ '"' := by decide
  unfold escape
  split <;> try rfl
  rename_i plain _ _ _ _ _ _
  split
  · have high := digit (c.toNat / 16) (by omega)
    have low := digit (c.toNat % 16) (by omega)
    have other : c ≠ '"' := plain
    simp [high, low, other]
  · rfl

theorem count_dumpString (text : Text) : (dumpString text).count '"' = text.count '"' + 2 := by
  have escaped : (text.flatMap escape).count '"' = text.count '"' := by
    induction text with
    | nil => rfl
    | cons c text ih =>
      rw [flatMap_cons, count_append, count_escape, ih, ← count_append]
      rfl
  simp [dumpString, escaped]

/-- Each item is written with two quotes more. -/
theorem count_dump (items : List Text) :
    (Field.array items).dump.count '"' = items.flatten.count '"' + 2 * items.length := by
  have joined : ([','].intercalate (items.map dumpString)).count '"' =
      items.flatten.count '"' + 2 * items.length := by
    induction items with
    | nil => rfl
    | cons text items ih =>
      cases items with
      | nil => simp [count_dumpString]
      | cons next items =>
        simp only [map_cons] at ih ⊢
        rw [intercalate_cons_cons, count_append, count_append, ih]
        simp [count_dumpString]
        omega
  simp [Field.dump, joined]

theorem stringToJsonArray_dump_ne (items : List Text) :
    stringToJsonArray (Field.array items).dump ≠ items := by
  intro same
  have quotes := count_stringToJsonArray (Field.array items).dump
  rw [same, count_dump] at quotes
  have none : items = [] := eq_nil_of_length_eq_zero (by omega)
  subst none
  exact absurd same (by decide)

/-- The rules and the references of an entry that was stored and read back are those it had. -/
def Unchanged (normalize : Entry → Entry) (entry : Entry) : Prop :=
  (normalize (normalizeData entry)).rules = entry.rules ∧
    (normalize (normalizeData entry)).references = entry.references

/-- **Rules and references come back unchanged only if there are none**, for checks and for
policies. -/
theorem lists_unchanged_iff (rules references : Option (List Text)) (refs : Option Field) :
    (Unchanged normalizeCheck ⟨rules.map .array, references.map .array, refs⟩ ↔
      rules = none ∧ references = none ∧ ∀ text, refs ≠ some (.string text)) ∧
    (Unchanged normalizePolicy ⟨rules.map .array, references.map .array, refs⟩ ↔
      rules = none ∧ references = none ∧ ∀ text, refs ≠ some (.string text)) := by
  have misread := stringToJsonArray_dump_ne
  match refs with
  | none | some (.string _) | some (.array _) =>
    cases rules <;> cases references <;>
      simp [Unchanged, normalizeCheck, normalizePolicy, normalizeData, misread]

def oneRule : Entry := ⟨some (.array ["f:/etc/a".toList]), some (.array []), none⟩

/-- A rule comes back with the brackets and the quotes. -/
theorem rule_misread :
    (normalizeCheck (normalizeData oneRule)).rules = some (.array ["[\"f:/etc/a\"]".toList]) ∧
      ¬ Unchanged normalizeCheck oneRule := by
  refine ⟨by decide, ?_⟩
  intro same
  exact absurd same.1 (by decide)

end GuardSarm.Sca.StoredLists
