import GuardSarm.Engine.Dsv

/-!
# Reading back comma-separated values

A value is written as it is, or in quotes with its quotes doubled. Inside the
quotes of a field the last escape location never stands right before the next
quote (`Clear`), so the quotes of a value pair up whatever run of quotes they
belong to, and the closing one is the one without a partner.
-/

namespace GuardSarm.Hlp

open List

def doubled (value : Text) : Text := value.flatMap fun c => if c = '"' then ['"', '"'] else [c]

def needsQuotes (value : Text) : Bool := value.contains ',' || value.contains '"'

/-- A value as RFC 4180 writes it. -/
def encodeField (value : Text) : Text :=
  if needsQuotes value then '"' :: (doubled value ++ ['"']) else value

/-- The values of a line, joined by commas. -/
def encode (values : List Text) : Text := [','].intercalate (values.map encodeField)

/-- What follows a field: nothing, or the next one. -/
def Follows (rest : Text) : Prop := rest = [] ∨ ∃ more, rest = ',' :: more

/-- A quote at `i` is not taken for an escaped one. -/
structure Clear (lastEscapeLocation i : Nat) : Prop where
  before : lastEscapeLocation < i
  apart : lastEscapeLocation + 1 = i → i = 1

theorem Clear.succ {location i : Nat} (clear : Clear location i) : Clear location (i + 1) where
  before := Nat.lt_succ_of_lt clear.before
  apart same := absurd (Nat.succ.inj same) clear.before.ne

theorem Clear.alone {location i : Nat} (clear : Clear location i) :
    (decide (location + 1 = i) && decide (1 < i)) = false := by
  rw [Bool.and_eq_false_iff, decide_eq_false_iff_not, decide_eq_false_iff_not]
  by_cases next : location + 1 = i
  · exact .inr (by rw [clear.apart next]; decide)
  · exact .inl next

theorem doubled_quote (value : Text) : doubled ('"' :: value) = '"' :: '"' :: doubled value := rfl

theorem doubled_other {c : Char} (other : c ≠ '"') (value : Text) :
    doubled (c :: value) = c :: doubled value := by
  simp [doubled, other]

section

variable {behind : Char} {i location : Nat} {rest : Text}

theorem scanFrom_closing (previous : Char) (follows : Follows rest) (clear : Clear location i)
    (escaped quoted : Bool) :
    scanFrom ',' '"' '"' true behind i previous ('"' :: rest) ⟨location, true, escaped, quoted⟩ =
      some ⟨0, i + 1, escaped, true⟩ := by
  rcases follows with rfl | ⟨more, rfl⟩
  · simp [scanFrom, scanChar, clear.alone]
  · simp [scanFrom, scanChar, clear.alone]

/-- Two quotes that stand for one: the second one follows the location that the first one left. -/
theorem scanFrom_pair (previous : Char) (text : Text) (clear : Clear location i)
    (escaped quoted : Bool) : scanFrom ',' '"' '"' true behind i previous ('"' :: '"' :: text)
        ⟨location, true, escaped, quoted⟩ =
      scanFrom ',' '"' '"' true behind (i + 2) '"' text ⟨i, true, true, true⟩ := by
  have positive : 0 < i := Nat.lt_of_le_of_lt (Nat.zero_le _) clear.before
  simp [scanFrom, scanChar, clear.alone, positive]

/-- Any other character, which is no comma outside of the quotes. -/
theorem scanFrom_inner {c : Char} (other : c ≠ '"') {opened : Bool}
    (inside : opened = true ∨ c ≠ ',') (previous : Char) (text : Text) (escaped quoted : Bool) :
    scanFrom ',' '"' '"' true behind i previous (c :: text) ⟨location, opened, escaped, quoted⟩ =
      scanFrom ',' '"' '"' true behind (i + 1) c text ⟨location, opened, escaped, quoted⟩ := by
  rcases inside with rfl | comma
  · simp [scanFrom, scanChar, other]
  · simp [scanFrom, scanChar, other, comma]

theorem scanFrom_doubled (follows : Follows rest) (value : Text) (previous : Char)
    (clear : Clear location i) (escaped quoted : Bool) :
    scanFrom ',' '"' '"' true behind i previous (doubled value ++ '"' :: rest)
        ⟨location, true, escaped, quoted⟩ =
      some ⟨0, i + (doubled value).length + 1, escaped || value.contains '"', true⟩ := by
  induction value generalizing i location previous escaped quoted with
  | nil =>
    rw [show doubled [] = [] from rfl, nil_append, scanFrom_closing previous follows clear]
    simp
  | cons c value ih =>
    by_cases quote : c = '"'
    · subst quote
      have apart : Clear i (i + 2) := ⟨by omega, by omega⟩
      rw [doubled_quote, cons_append, cons_append, scanFrom_pair previous _ clear,
        ih _ apart]
      simp only [length_cons, contains_cons, beq_self_eq_true, Bool.true_or, Bool.or_true]
      congr 2
      omega
    · rw [doubled_other quote, cons_append, scanFrom_inner quote (.inl rfl), ih _ clear.succ,
        contains_cons, beq_false_of_ne (Ne.symm quote), Bool.false_or, length_cons]
      congr 2
      omega

theorem scanFrom_plain (follows : Follows rest) {value : Text} (commas : ',' ∉ value)
    (quotes : '"' ∉ value) (previous : Char) :
    scanFrom ',' '"' '"' true behind i previous (value ++ rest) ⟨0, false, false, false⟩ =
      some ⟨0, i + value.length, false, false⟩ := by
  induction value generalizing i previous with
  | nil => rcases follows with rfl | ⟨more, rfl⟩ <;> rfl
  | cons c value ih =>
    rw [mem_cons, not_or] at commas quotes
    rw [cons_append, scanFrom_inner (Ne.symm quotes.1) (.inr (Ne.symm commas.1)),
      ih commas.2 quotes.2, length_cons]
    congr 2
    omega

theorem needsQuotes_eq_false_iff {value : Text} :
    needsQuotes value = false ↔ ',' ∉ value ∧ '"' ∉ value := by
  simp [needsQuotes]

/-- One field, whatever follows it in the line or in memory. -/
theorem getField_encodeField (follows : Follows rest) (value : Text) :
    getField ',' '"' '"' true behind (encodeField value ++ rest) =
      some ⟨0, (encodeField value).length, value.contains '"', needsQuotes value⟩ := by
  rw [getField, encodeField]
  cases needs : needsQuotes value with
  | true =>
    have first : Clear 0 1 := ⟨Nat.one_pos, fun _ => rfl⟩
    have opening : scanFrom ',' '"' '"' true behind 0 '"' ('"' :: (doubled value ++ '"' :: rest))
        ⟨0, false, false, false⟩ =
        scanFrom ',' '"' '"' true behind 1 '"' (doubled value ++ '"' :: rest)
          ⟨0, true, false, false⟩ := by
      simp [scanFrom, scanChar]
    have text : '"' :: (doubled value ++ ['"']) ++ rest = '"' :: (doubled value ++ '"' :: rest) := by
      simp
    have length : ('"' :: (doubled value ++ ['"'])).length = 1 + (doubled value).length + 1 := by
      simp [Nat.add_comm]
    rw [if_pos rfl, text, if_neg (cons_ne_nil _ _), opening,
      scanFrom_doubled follows value '"' first, length, Bool.false_or]
  | false =>
    obtain ⟨commas, quotes⟩ := needsQuotes_eq_false_iff.mp needs
    have none : value.contains '"' = false := by simpa using quotes
    rw [if_neg Bool.false_ne_true, none]
    split
    · rename_i empty
      rw [(append_eq_nil_iff.mp empty).1]
      rfl
    · rw [scanFrom_plain follows commas quotes, Nat.zero_add]

end

theorem unescape_other {escape c : Char} (other : c ≠ escape) (text : Text) :
    unescape escape (c :: text) = c :: unescape escape text := by
  cases text <;> simp [unescape, other]

theorem unescape_doubled (value : Text) : unescape '"' (doubled value) = value := by
  induction value with
  | nil => rfl
  | cons c value ih =>
    by_cases quote : c = '"'
    · subst quote
      simp [doubled_quote, unescape, ih]
    · rw [doubled_other quote, unescape_other quote, ih]

theorem doubled_eq_self {value : Text} (quotes : '"' ∉ value) : doubled value = value := by
  induction value with
  | nil => rfl
  | cons c value ih =>
    rw [mem_cons, not_or] at quotes
    rw [doubled_other (Ne.symm quotes.1), ih quotes.2]

/-- What the code writes for a value under a key. -/
def write (key value : Text) : Except DsvError Assignment :=
  if value = [] then set key none else set (convertDotToSlash key) (some value)

theorem toInt_of_lt {n : Nat} (small : n < 2 ^ 31) : toInt n = n := by
  rw [toInt, if_pos (by omega)]
  omega

theorem toSize_natCast {n : Nat} (small : n < 2 ^ 64) : toSize n = n := by
  rw [toSize]
  omega

def fieldOf (value : Text) : Field :=
  ⟨0, (encodeField value).length, value.contains '"', needsQuotes value⟩

/-- What stands between the quotes of a field, if it has them. -/
def raw (value : Text) : Text := if needsQuotes value then doubled value else value

theorem drop_encodeField (value rest : Text) :
    ∃ more, (encodeField value ++ rest).drop (if needsQuotes value then 1 else 0) =
      raw value ++ more := by
  rw [encodeField, raw]
  cases needsQuotes value with
  | true => exact ⟨'"' :: rest, by simp⟩
  | false => exact ⟨rest, rfl⟩

theorem length_encodeField (value : Text) :
    (encodeField value).length = (raw value).length + if needsQuotes value then 2 else 0 := by
  rw [encodeField, raw]
  cases needsQuotes value <;> simp

theorem raw_eq_nil_iff {value : Text} : raw value = [] ↔ value = [] := by
  rw [raw]
  cases needs : needsQuotes value with
  | false => rfl
  | true =>
    cases value with
    | nil => cases needs
    | cons c value =>
      by_cases quote : c = '"'
      · simp [quote, doubled_quote]
      · simp [doubled_other quote]

theorem updateDoc_fieldOf (key value : Text) :
    updateDoc key (raw value) (fieldOf value).m_isEscaped '"' = write key value := by
  have read : (if (fieldOf value).m_isEscaped then unescape '"' (raw value) else raw value) =
      value := by
    rw [fieldOf, raw]
    by_cases quotes : '"' ∈ value
    · have needs : needsQuotes value = true := by simp [needsQuotes, quotes]
      rw [if_pos needs, unescape_doubled]
      simp [quotes]
    · rw [doubled_eq_self quotes, ite_self]
      simp [quotes]
  simp only [updateDoc, read, write, raw_eq_nil_iff]

section

variable {value : Text} (short : (encodeField value).length < 2 ^ 31 - 1)

include short

theorem len_fieldOf : toSize (fieldOf value).len = (raw value).length := by
  have length := length_encodeField value
  rw [Field.len, fieldOf]
  cases needs : needsQuotes value with
  | true =>
    rw [needs, if_pos rfl] at length
    have inner : toSize (((encodeField value).length : Int) - (0 : Nat) - 2) = (raw value).length := by
      rw [toSize]
      omega
    simp only [if_true, inner]
    rw [toInt_of_lt (by omega), toSize_natCast (by omega)]
  | false =>
    rw [needs, if_neg Bool.false_ne_true, Nat.add_zero] at length
    have inner : toSize (((encodeField value).length : Int) - (0 : Nat)) = (raw value).length := by
      rw [toSize]
      omega
    simp only [Bool.false_eq_true, if_false, inner]
    rw [toInt_of_lt (by omega), toSize_natCast (by omega)]

theorem substr_fieldOf (rest : Text) :
    substr (encodeField value ++ rest) (toSize (fieldOf value).start) (toSize (fieldOf value).len) =
      .ok (raw value) := by
  have start : toSize (fieldOf value).start = if needsQuotes value then 1 else 0 := by
    rw [Field.start, fieldOf]
    cases needsQuotes value <;> rfl
  have length := length_encodeField value
  obtain ⟨more, text⟩ := drop_encodeField value rest
  have inside : ¬(if needsQuotes value then 1 else 0) > (encodeField value ++ rest).length := by
    rw [length_append, length]
    cases needsQuotes value <;> simp
  rw [substr, start, len_fieldOf short, if_neg inside, text, take_left]

theorem advance_fieldOf {start : Nat} (small : start + (encodeField value).length + 1 < 2 ^ 64) :
    advance start (fieldOf value) = .ok (start + (encodeField value).length + 1) := by
  have whole : (fieldOf value).end = (encodeField value).length :=
    toInt_of_lt (Nat.lt_of_lt_of_le short (by decide))
  have next : toSize ((encodeField value).length + 1 : Int) = (encodeField value).length + 1 := by
    rw [toSize]
    omega
  rw [advance, whole, if_neg (by omega), next, ← Nat.add_assoc, Nat.mod_eq_of_lt small]

end

def restOf : List Text → Text
  | [] => []
  | value :: values => ',' :: encode (value :: values)

theorem encode_cons (value : Text) (values : List Text) :
    encode (value :: values) = encodeField value ++ restOf values := by
  cases values with
  | nil => simp [encode, restOf]
  | cons next values => simp [encode, restOf, intercalate_cons_cons]

theorem follows_restOf (values : List Text) : Follows (restOf values) := by
  cases values with
  | nil => exact .inl rfl
  | cons value values => exact .inr ⟨_, rfl⟩

/-- One pass of the loop, at the beginning of a field. -/
theorem readFields_field (behind : Char) (key value before rest : Text) (keys : List Text)
    (doc : List Assignment) (follows : Follows rest)
    (short : (encodeField value).length < 2 ^ 31 - 1)
    (fits : before.length + (encodeField value).length + 1 < 2 ^ 64) :
    readFields ',' '"' '"' behind (before ++ (encodeField value ++ rest)) (key :: keys)
        before.length doc = write key value >>= fun assignment =>
        readFields ',' '"' '"' behind (before ++ (encodeField value ++ rest)) keys
          (before.length + (encodeField value).length + 1) (doc ++ [assignment]) := by
  have field : getField ',' '"' '"' true behind (encodeField value ++ rest) = some (fieldOf value) :=
    getField_encodeField follows value
  rw [readFields, if_neg (by rw [length_append]; omega), drop_left, field]
  simp only [substr_fieldOf short, advance_fieldOf short fits, bind, Except.bind, updateDoc_fieldOf]

/-- A dot is no part of an escape in a pointer. -/
theorem validPointer_convertDotToSlash (key : Text) :
    validPointer (convertDotToSlash key) = validPointer key := by
  have tilde (c : Char) : ((if c = '.' then '/' else c) != '~') = (c != '~') := by
    split
    · rename_i dot
      rw [dot]
      rfl
    · rfl
  have digit (c : Char) : "01".toList.contains (if c = '.' then '/' else c) =
      "01".toList.contains c := by
    split
    · rename_i dot
      rw [dot]
      rfl
    · rfl
  induction key with
  | nil => rfl
  | cons c key ih =>
    rw [convertDotToSlash] at ih ⊢
    rw [map_cons, validPointer, validPointer, ih, tilde]
    cases key with
    | nil => rfl
    | cons d key => simp only [map_cons, head?_cons, Option.any_some, digit]

/-- What the code assigns where the path is valid. -/
def written (key value : Text) : Assignment :=
  if value = [] then ⟨key, none⟩ else ⟨convertDotToSlash key, some value⟩

theorem write_eq (key value : Text) : validPointer key = true ∧ write key value = .ok (written key value) ∨
    validPointer key = false ∧ ∃ e, write key value = .error e := by
  rw [write, written, set, set, validPointer_convertDotToSlash]
  cases validPointer key with
  | true => exact .inl ⟨rfl, by split <;> rfl⟩
  | false => exact .inr ⟨rfl, by split <;> exact ⟨_, rfl⟩⟩

/-- Every value is assigned if all paths are valid. -/
def Assigns (keys values : List Text) (doc : List Assignment) (final : Nat)
    (result : Except DsvError (Nat × List Text × List Assignment)) : Prop :=
  if ∀ key ∈ keys, validPointer key = true
  then result = .ok (final, [], doc ++ List.zipWith written keys values) else ∃ e, result = .error e

theorem readFields_encode (behind : Char) {values keys : List Text} (before : Text)
    (doc : List Assignment) (some : values ≠ []) (count : keys.length = values.length)
    (short : ∀ value ∈ values, (encodeField value).length < 2 ^ 31 - 1)
    (fits : (before ++ encode values).length + 1 < 2 ^ 64) :
    Assigns keys values doc ((before ++ encode values).length + 1)
      (readFields ',' '"' '"' behind (before ++ encode values) keys before.length doc) := by
  induction values generalizing keys before doc with
  | nil => exact absurd rfl some
  | cons value values ih =>
    cases keys with
    | nil => cases count
    | cons key keys =>
      rw [encode_cons] at fits ⊢
      have length : (before ++ (encodeField value ++ restOf values)).length =
          before.length + (encodeField value).length + (restOf values).length := by
        rw [length_append, length_append, Nat.add_assoc]
      rw [readFields_field behind key value before _ keys doc (follows_restOf values)
        (short value mem_cons_self) (by omega), Assigns]
      rcases write_eq key value with ⟨valid, wrote⟩ | ⟨invalid, e, raised⟩
      · rw [wrote, zipWith_cons_cons]
        simp only [forall_mem_cons, valid, true_and]
        cases values with
        | nil =>
          obtain rfl := length_eq_zero_iff.mp (Nat.succ.inj count)
          simp [bind, Except.bind, readFields, restOf, Nat.add_assoc]
        | cons next values =>
          have text : before ++ (encodeField value ++ restOf (next :: values)) =
              (before ++ encodeField value ++ [',']) ++ encode (next :: values) := by
            simp [restOf]
          have begins : before.length + (encodeField value).length + 1 =
              (before ++ encodeField value ++ [',']).length := by simp [Nat.add_assoc]
          have later := ih (before ++ encodeField value ++ [',']) (doc ++ [written key value])
            (cons_ne_nil _ _) (Nat.succ.inj count)
            (fun other member => short other (mem_cons_of_mem _ member)) (by rwa [← text])
          rw [text, begins, append_cons doc]
          exact later
      · rw [raised, if_neg (by simp [invalid])]
        exact ⟨e, rfl⟩

/-- The place that stands for a header, and the value that it should get. -/
def assigned (header value : Text) : Assignment :=
  ⟨convertDotToSlash ('/' :: header), if value = [] then none else some value⟩

theorem convertDotToSlash_eq_self_iff (key : Text) : convertDotToSlash key = key ↔ '.' ∉ key := by
  induction key with
  | nil => simp [convertDotToSlash]
  | cons c key ih =>
    rw [convertDotToSlash] at ih ⊢
    rw [map_cons, List.cons.injEq, ih, mem_cons, not_or]
    refine and_congr_left' ?_
    split
    · rename_i dot
      simp [dot]
    · rename_i other
      simp [eq_comm, other]

theorem written_eq_assigned_iff (header value : Text) :
    written ('/' :: header) value = assigned header value ↔ (value = [] → '.' ∉ header) := by
  rw [written, assigned]
  by_cases empty : value = []
  · have same := convertDotToSlash_eq_self_iff ('/' :: header)
    rw [mem_cons, not_or] at same
    rw [if_pos empty, if_pos empty, Assignment.mk.injEq, eq_comm, same]
    simp [empty]
  · simp [empty]

theorem zipWith_written_iff {headers values : List Text} (count : headers.length = values.length) :
    List.zipWith written (headers.map ('/' :: ·)) values = List.zipWith assigned headers values ↔
      ∀ pair ∈ headers.zip values, pair.2 = [] → '.' ∉ pair.1 := by
  induction headers generalizing values with
  | nil => simp
  | cons header headers ih =>
    cases values with
    | nil => cases count
    | cons value values =>
      rw [map_cons, zipWith_cons_cons, zipWith_cons_cons, List.cons.injEq,
        written_eq_assigned_iff, ih (Nat.succ.inj count), zip_cons_cons, forall_mem_cons]

end GuardSarm.Hlp
