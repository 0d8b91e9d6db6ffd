import GuardSarm.Engine.CsvRoundTrip
import GuardSarm.Lib.Search

/-!
# Reading back delimited values with an escape character

Every value is written in quotes, with an escape character before each quote
and each escape character. The loop of `getField` keeps the place of the last
escape character instead of its parity, so that a value that ends with an escape
character seems to escape its closing quote; and it takes note of an escape only
where a quote is escaped, so that escape characters alone stay doubled.
-/

namespace GuardSarm.Hlp

section writing

variable (delimiter quote escape : Char)

def escapedValue : Text → Text
  | [] => []
  | c :: value =>
    if c = quote ∨ c = escape then escape :: c :: escapedValue value else c :: escapedValue value

def encodeQuoted (value : Text) : Text := quote :: (escapedValue quote escape value ++ [quote])

/-- The values of a line, in quotes and joined by the delimiter. -/
def encodeLine (values : List Text) : Text :=
  [delimiter].intercalate (values.map (encodeQuoted quote escape))

def lineRest : List Text → Text
  | [] => []
  | value :: values => delimiter :: encodeLine delimiter quote escape (value :: values)

theorem encodeLine_cons (value : Text) (values : List Text) :
    encodeLine delimiter quote escape (value :: values) =
      encodeQuoted quote escape value ++ lineRest delimiter quote escape values := by
  cases values with
  | nil => simp [encodeLine, lineRest]
  | cons next values => simp [encodeLine, lineRest, List.intercalate_cons_cons]

end writing

/-- The three characters differ. -/
structure Distinct (delimiter quote escape : Char) : Prop where
  delimiter_quote : delimiter ≠ quote
  delimiter_escape : delimiter ≠ escape
  quote_escape : quote ≠ escape

section scanning

variable {delimiter quote escape behind : Char} (distinct : Distinct delimiter quote escape)

include distinct

theorem scanFrom_quoted_plain {c : Char} (plain : ¬(c = quote ∨ c = escape)) (i location : Nat)
    (previous : Char) (text : Text) (escaped quoted : Bool) :
    scanFrom delimiter quote escape true behind i previous (c :: text)
        ⟨location, true, escaped, quoted⟩ =
      scanFrom delimiter quote escape true behind (i + 1) c text
        ⟨location, true, escaped, quoted⟩ := by
  rw [not_or] at plain
  simp [scanFrom, scanChar, plain.1, plain.2]

theorem scanFrom_quoted_escape (i location : Nat) (previous : Char) (text : Text)
    (escaped quoted : Bool) :
    scanFrom delimiter quote escape true behind i previous (escape :: text)
        ⟨location, true, escaped, quoted⟩ =
      scanFrom delimiter quote escape true behind (i + 1) escape text
        ⟨i, true, escaped, quoted⟩ := by
  have other := distinct.quote_escape.symm
  simp [scanFrom, scanChar, distinct.quote_escape, other]

theorem scanFrom_quoted_quote {i : Nat} (inside : 0 < i) (previous : Char) (text : Text)
    (escaped quoted : Bool) :
    scanFrom delimiter quote escape true behind (i + 1) previous (quote :: text)
        ⟨i, true, escaped, quoted⟩ =
      scanFrom delimiter quote escape true behind (i + 2) quote text ⟨i, true, true, true⟩ := by
  simp [scanFrom, scanChar, distinct.quote_escape, inside]

/-- One character of a value: where the scan goes on, and whether an escape character stands
right before that place. -/
theorem scanFrom_escaped_cons (c : Char) (value : Text) {i location : Nat}
    (before : location < i) (previous : Char) (text : Text) (escaped quoted : Bool) :
    ∃ step last final, last < i + step ∧ (last + 1 = i + step ↔ c = escape) ∧
      (escapedValue quote escape (c :: value)).length =
        step + (escapedValue quote escape value).length ∧
      scanFrom delimiter quote escape true behind i previous
          (escapedValue quote escape (c :: value) ++ text) ⟨location, true, escaped, quoted⟩ =
        scanFrom delimiter quote escape true behind (i + step) final
          (escapedValue quote escape value ++ text)
          ⟨last, true, escaped || quote == c, quoted || quote == c⟩ := by
  have inside : 0 < i := Nat.lt_of_le_of_lt (Nat.zero_le _) before
  by_cases special : c = quote ∨ c = escape
  · rw [escapedValue, if_pos special, List.cons_append, List.cons_append,
      scanFrom_quoted_escape distinct]
    obtain rfl | rfl := special
    · refine ⟨2, i, c, by omega, ⟨by omega, fun same => absurd same distinct.quote_escape⟩,
        by simp; omega, ?_⟩
      rw [scanFrom_quoted_quote distinct inside]
      simp
    · refine ⟨2, i + 1, c, by omega, ⟨fun _ => rfl, by omega⟩, by simp; omega, ?_⟩
      rw [scanFrom_quoted_escape distinct, beq_false_of_ne distinct.quote_escape, Bool.or_false,
        Bool.or_false]
  · rw [escapedValue, if_neg special, List.cons_append, scanFrom_quoted_plain distinct special]
    rw [not_or] at special
    refine ⟨1, location, c, by omega, ⟨by omega, fun same => absurd same special.2⟩,
      by simp [Nat.add_comm], ?_⟩
    rw [beq_false_of_ne (Ne.symm special.1), Bool.or_false, Bool.or_false]

/-- The body of a field is passed in quotes. The last escape character stands right before its
end exactly if the value ends with one. -/
theorem scanFrom_escaped (value : Text) {i location : Nat} (before : location < i) (previous : Char)
    (text : Text) (escaped quoted : Bool) :
    ∃ last final, last < i + (escapedValue quote escape value).length ∧
      (last + 1 = i + (escapedValue quote escape value).length ↔
        if value = [] then location + 1 = i else value.getLast? = some escape) ∧
      scanFrom delimiter quote escape true behind i previous (escapedValue quote escape value ++ text)
          ⟨location, true, escaped, quoted⟩ =
        scanFrom delimiter quote escape true behind (i + (escapedValue quote escape value).length)
          final text ⟨last, true, escaped || value.contains quote, quoted || value.contains quote⟩ := by
  induction value generalizing i location previous escaped quoted with
  | nil => exact ⟨location, previous, before, by simp [escapedValue], by simp [escapedValue]⟩
  | cons c value ih =>
    obtain ⟨step, last, final, bound, ends, length, scanned⟩ :=
      scanFrom_escaped_cons distinct c value before previous text escaped quoted
    obtain ⟨last', final', bound', ends', scanned'⟩ :=
      ih bound final (escaped || quote == c) (quoted || quote == c)
    refine ⟨last', final', by omega, ?_, ?_⟩
    · rw [length, ← Nat.add_assoc, ends', if_neg (List.cons_ne_nil c value)]
      split
      · rename_i empty
        simp [empty, ends]
      · rename_i more
        rw [List.getLast?_cons, List.getLast?_eq_some_getLast more]
        simp
    · rw [scanned, scanned', length, ← Nat.add_assoc]
      simp only [List.contains_cons, Bool.or_assoc]

/-- What follows a field: nothing, or the delimiter and the next one. -/
def LineFollows (delimiter quote : Char) (rest : Text) : Prop :=
  rest = [] ∨ ∃ more, rest = delimiter :: quote :: more

omit distinct in
theorem follows_lineRest (values : List Text) :
    LineFollows delimiter quote (lineRest delimiter quote escape values) := by
  cases values with
  | nil => exact .inl rfl
  | cons value values =>
    rw [lineRest, encodeLine_cons]
    exact .inr ⟨_, rfl⟩

theorem getField_body (behind : Char) (value rest : Text) :
    ∃ last final, (last + 1 = 1 + (escapedValue quote escape value).length ↔
        value = [] ∨ value.getLast? = some escape) ∧
      getField delimiter quote escape true behind (encodeQuoted quote escape value ++ rest) =
        scanFrom delimiter quote escape true behind (1 + (escapedValue quote escape value).length)
          final (quote :: rest) ⟨last, true, value.contains quote, value.contains quote⟩ := by
  obtain ⟨last, final, -, ends, scanned⟩ :=
    scanFrom_escaped distinct value Nat.one_pos quote (quote :: rest) false false
  refine ⟨last, final, ?_, ?_⟩
  · rw [ends]
    by_cases empty : value = [] <;> simp [empty]
  · rw [Bool.false_or] at scanned
    have text : encodeQuoted quote escape value ++ rest =
        quote :: (escapedValue quote escape value ++ quote :: rest) := by
      simp [encodeQuoted]
    have opening : scanFrom delimiter quote escape true behind 0 quote
        (quote :: (escapedValue quote escape value ++ quote :: rest)) ⟨0, false, false, false⟩ =
        scanFrom delimiter quote escape true behind 1 quote
          (escapedValue quote escape value ++ quote :: rest) ⟨0, true, false, false⟩ := by
      simp [scanFrom, scanChar, distinct.delimiter_quote.symm, distinct.quote_escape]
    rw [text, getField, if_neg (List.cons_ne_nil _ _), opening, scanned]

/-- A closing quote that no escape character seems to escape. -/
theorem getField_closed {value rest : Text} (closed : value.getLast? ≠ some escape)
    (follows : LineFollows delimiter quote rest) :
    getField delimiter quote escape true behind (encodeQuoted quote escape value ++ rest) =
      some ⟨0, (escapedValue quote escape value).length + 2, value.contains quote, true⟩ := by
  obtain ⟨last, final, ends, scanned⟩ := getField_body distinct behind value rest
  have alone : (decide (last + 1 = 1 + (escapedValue quote escape value).length) &&
      decide (1 < 1 + (escapedValue quote escape value).length)) = false := by
    rw [Bool.and_eq_false_iff, decide_eq_false_iff_not, decide_eq_false_iff_not, ends]
    by_cases empty : value = []
    · exact .inr (by simp [empty, escapedValue])
    · exact .inl (by simp [empty, closed])
  have length : (escapedValue quote escape value).length + 2 =
      1 + (escapedValue quote escape value).length + 1 := by omega
  rw [scanned, length]
  generalize 1 + (escapedValue quote escape value).length = i at alone
  obtain rfl | ⟨more, rfl⟩ := follows
  · simp [scanFrom, scanChar, distinct.quote_escape, alone]
  · simp [scanFrom, scanChar, distinct.quote_escape, alone]

/-- A closing quote behind an escape character is passed over. -/
theorem getField_passed (behind : Char) {value : Text} (ends : value.getLast? = some escape)
    (rest : Text) :
    ∃ last, getField delimiter quote escape true behind (encodeQuoted quote escape value ++ rest) =
      scanFrom delimiter quote escape true behind ((escapedValue quote escape value).length + 2)
        quote rest ⟨last, true, true, true⟩ := by
  obtain ⟨last, final, location, scanned⟩ := getField_body distinct behind value rest
  have adjacent := location.mpr (.inr ends)
  have long : 0 < (escapedValue quote escape value).length := by
    cases value with
    | nil => cases ends
    | cons c value => rw [escapedValue]; split <;> simp
  refine ⟨last, ?_⟩
  have length : 1 + (escapedValue quote escape value).length + 1 =
      (escapedValue quote escape value).length + 2 := by omega
  rw [scanned]
  simp [scanFrom, scanChar, distinct.quote_escape, adjacent, long, length]

theorem getField_last {value : Text} (ends : value.getLast? = some escape) :
    getField delimiter quote escape true behind (encodeQuoted quote escape value) =
      some ⟨0, (escapedValue quote escape value).length + 2, true, true⟩ := by
  obtain ⟨last, scanned⟩ := getField_passed distinct behind ends []
  rw [List.append_nil] at scanned
  rw [scanned]
  simp [scanFrom]

end scanning

section

variable {delimiter quote escape behind : Char}

theorem scanChar_keeps {i : Nat} {previous c next : Char} {scan after : Scan}
    (scanned : scanChar delimiter quote escape true i previous c next scan = some after) :
    (scan.isEscaped = true → after.isEscaped = true) ∧
      (scan.isQuoted = true → after.isQuoted = true) := by
  unfold scanChar at scanned
  generalize marked : (if scan.quoteOpened && quote != escape && c == escape
    then { scan with lastEscapeLocation := i } else scan) = noted at scanned
  have same : noted.isEscaped = scan.isEscaped ∧ noted.isQuoted = scan.isQuoted := by
    rw [← marked]
    split <;> exact ⟨rfl, rfl⟩
  rw [← same.1, ← same.2]
  dsimp only at scanned
  split at scanned
  · cases scanned; exact ⟨id, id⟩
  · split at scanned
    · split at scanned
      · cases scanned
      · cases scanned; exact ⟨id, id⟩
    · cases scanned
      exact ⟨fun seen => by simp [seen], fun _ => rfl⟩

/-- What a scan has seen stays in the field, and the field does not end before the scan. -/
theorem of_scanFrom (text : Text) {i : Nat} {previous : Char} {scan : Scan} {field : Field}
    (found : scanFrom delimiter quote escape true behind i previous text scan = some field) :
    field.m_start = 0 ∧ i ≤ field.m_end ∧ field.m_end ≤ i + text.length ∧
      (scan.isEscaped = true → field.m_isEscaped = true) ∧
      (scan.isQuoted = true → field.m_isQuoted = true) := by
  induction text generalizing i previous scan with
  | nil =>
    rw [scanFrom] at found
    split at found
    · cases found
    · cases found; simp
  | cons c text ih =>
    rw [scanFrom] at found
    split at found
    · cases found; simp
    · cases scanned : scanChar delimiter quote escape true i previous c (text.headD behind) scan with
      | none => rw [scanned] at found; cases found
      | some next =>
        rw [scanned] at found
        obtain ⟨start, above, below, escaped, quoted⟩ := ih found
        obtain ⟨keeps, keepsQuoted⟩ := scanChar_keeps scanned
        rw [List.length_cons]
        exact ⟨start, by omega, by omega, fun seen => escaped (keeps seen),
          fun seen => quoted (keepsQuoted seen)⟩

end

section values

variable {delimiter quote escape behind : Char}

theorem unescape_escapedValue (value text : Text) :
    unescape escape (escapedValue quote escape value ++ text) = value ++ unescape escape text := by
  induction value with
  | nil => rfl
  | cons c value ih =>
    rw [escapedValue]
    split
    · simp [unescape, ih]
    · rename_i plain
      rw [not_or] at plain
      rw [List.cons_append, unescape_other plain.2, ih, List.cons_append]

theorem length_le_escapedValue (quote escape : Char) (value : Text) :
    value.length ≤ (escapedValue quote escape value).length := by
  induction value with
  | nil => exact le_rfl
  | cons c value ih =>
    rw [escapedValue]
    split <;> simp only [List.length_cons] <;> omega

theorem escapedValue_eq_self_iff (quote escape : Char) (value : Text) :
    escapedValue quote escape value = value ↔ quote ∉ value ∧ escape ∉ value := by
  induction value with
  | nil => simp [escapedValue]
  | cons c value ih =>
    rw [escapedValue]
    split
    · rename_i special
      constructor
      · intro same
        have lengths := congrArg List.length same
        have bound := length_le_escapedValue quote escape value
        simp only [List.length_cons] at lengths
        omega
      · obtain rfl | rfl := special <;> simp
    · rename_i plain
      rw [not_or] at plain
      simp [ih, Ne.symm plain.1, Ne.symm plain.2]

/-- What a value in quotes is assigned, with its escapes undone or not. -/
theorem updateDoc_escapedValue (key value : Text) (flag : Bool) :
    updateDoc key (escapedValue quote escape value) flag escape =
      write key (if flag then value else escapedValue quote escape value) := by
  have undone := @unescape_escapedValue quote escape value []
  rw [List.append_nil, show unescape escape [] = [] from rfl, List.append_nil] at undone
  cases flag with
  | false => simp [updateDoc, write]
  | true =>
    have empty : escapedValue quote escape value = [] ↔ value = [] := by
      cases value with
      | nil => simp [escapedValue]
      | cons c value => rw [escapedValue]; split <;> simp
    simp [updateDoc, write, undone, empty]

variable {doc : List Assignment} {keys : List Text}

/-- The field with its quotes is cut out of the text and passed over. -/
theorem readFields_quoted {key before text : Text} {m : Nat} {flag : Bool}
    (found : getField delimiter quote escape true behind text = some ⟨0, m, flag, true⟩)
    (quotes : 2 ≤ m) (inside : m ≤ text.length) (fits : (before ++ text).length < 2 ^ 31 - 1) :
    readFields delimiter quote escape behind (before ++ text) (key :: keys) before.length doc =
      updateDoc key (text.tail.take (m - 2)) flag escape >>= fun assignment =>
        readFields delimiter quote escape behind (before ++ text) keys (before.length + m + 1)
          (doc ++ [assignment]) := by
  have length : (before ++ text).length = before.length + text.length := List.length_append
  have start : toSize (Field.start ⟨0, m, flag, true⟩) = 1 := rfl
  have len : toSize (Field.len ⟨0, m, flag, true⟩) = m - 2 := by
    have inner : toSize ((m : Int) - (0 : Nat) - 2) = m - 2 := by
      rw [toSize]
      omega
    simp only [Field.len, if_true, inner]
    rw [toInt_of_lt (by omega), toSize_natCast (by omega)]
  have cut : substr text 1 (m - 2) = .ok (text.tail.take (m - 2)) := by
    rw [substr, if_neg (by omega), List.drop_one]
  have next : advance before.length ⟨0, m, flag, true⟩ = .ok (before.length + m + 1) := by
    have whole : Field.end ⟨0, m, flag, true⟩ = m := toInt_of_lt (show m < 2 ^ 31 by omega)
    have size : toSize ((m : Int) + 1) = m + 1 := by
      rw [toSize]
      omega
    rw [advance, whole, if_neg (by omega), size, ← Nat.add_assoc, Nat.mod_eq_of_lt (by omega)]
  rw [readFields, if_neg (by omega), List.drop_left, found]
  simp only [start, len, cut, next, bind, Except.bind]

theorem readFields_prefix {parsed : Text} (keys : List Text) {start start' : Nat}
    {left : List Text} {doc doc' : List Assignment}
    (read : readFields delimiter quote escape behind parsed keys start doc =
      .ok (start', left, doc')) : ∃ later, doc' = doc ++ later := by
  induction keys generalizing start doc with
  | nil =>
    cases read
    exact ⟨[], (List.append_nil _).symm⟩
  | cons key keys ih =>
    rw [readFields] at read
    split at read
    · cases read
      exact ⟨[], (List.append_nil _).symm⟩
    · split at read
      · cases read
        exact ⟨[], (List.append_nil _).symm⟩
      · obtain ⟨v, -, read⟩ := Search.bind_ok_iff.mp read
        obtain ⟨assignment, -, read⟩ := Search.bind_ok_iff.mp read
        obtain ⟨next, -, read⟩ := Search.bind_ok_iff.mp read
        obtain ⟨later, rfl⟩ := ih read
        exact ⟨assignment :: later, by simp⟩

end values

section lines

variable {delimiter quote escape : Char}

/-- The place that a key stands for, and the value that it should get. -/
def target (key value : Text) : Assignment :=
  ⟨convertDotToSlash key, if value = [] then none else some value⟩

theorem write_eq_target_iff (key text value : Text) : write key text = .ok (target key value) ↔
      validPointer key = true ∧ text = value ∧ (value = [] → '.' ∉ key) := by
  rw [write, set, set, validPointer_convertDotToSlash, target]
  cases valid : validPointer key with
  | false => split <;> simp
  | true =>
    split
    · rename_i empty
      have same : key = convertDotToSlash key ↔ '.' ∉ key :=
        eq_comm.trans (convertDotToSlash_eq_self_iff key)
      by_cases none : value = []
      · simp [none, empty, same]
      · simp [none, empty, eq_comm]
    · rename_i some
      by_cases none : value = []
      · simp [none, some]
      · simp [none]

/-- What the scan of a line makes of its values: only the last one may end with an escape
character, and another one that holds escape characters holds a quote. -/
def Legible (quote escape : Char) : List Text → Prop
  | [] => True
  | value :: values =>
    (if value.getLast? = some escape then values = [] else escape ∈ value → quote ∈ value) ∧
      Legible quote escape values

theorem length_encodeQuoted (value : Text) :
    (encodeQuoted quote escape value).length = (escapedValue quote escape value).length + 2 := by
  simp [encodeQuoted]

section

variable (distinct : Distinct delimiter quote escape)
include distinct

/-- A closing quote that is passed over: the field goes on behind the next quote. -/
theorem getField_merged {behind : Char}
    {value rest : Text} {field : Field} (ends : value.getLast? = some escape)
    (found : getField delimiter quote escape true behind
      (encodeQuoted quote escape value ++ delimiter :: quote :: rest) = some field) :
    ∃ m, field = ⟨0, m, true, true⟩ ∧ (escapedValue quote escape value).length + 4 ≤ m ∧
      m ≤ (encodeQuoted quote escape value ++ delimiter :: quote :: rest).length := by
  have plain : ¬(delimiter = quote ∨ delimiter = escape) :=
    not_or.mpr ⟨distinct.delimiter_quote, distinct.delimiter_escape⟩
  obtain ⟨last, passed⟩ := getField_passed distinct behind ends (delimiter :: quote :: rest)
  rw [found, scanFrom_quoted_plain distinct plain, scanFrom,
    if_neg fun delimits => distinct.delimiter_quote delimits.1.symm] at passed
  cases scanned : scanChar delimiter quote escape true
      ((escapedValue quote escape value).length + 2 + 1) delimiter quote (rest.headD behind)
      ⟨last, true, true, true⟩ with
  | none => rw [scanned] at passed; cases passed
  | some next =>
    rw [scanned] at passed
    obtain ⟨escaped, quoted⟩ := scanChar_keeps scanned
    obtain ⟨start, above, below, keeps, keepsQuoted⟩ := of_scanFrom rest passed.symm
    obtain ⟨m_start, m, m_isEscaped, m_isQuoted⟩ := field
    obtain rfl : m_start = 0 := start
    obtain rfl : m_isEscaped = true := keeps (escaped rfl)
    obtain rfl : m_isQuoted = true := keepsQuoted (quoted rfl)
    refine ⟨m, rfl, above, ?_⟩
    simp only [List.length_append, length_encodeQuoted, List.length_cons] at below ⊢
    omega

theorem updateDoc_merged {value rest key : Text}
    {m : Nat} (long : (escapedValue quote escape value).length + 4 ≤ m) (some : value ≠ []) :
    updateDoc key ((encodeQuoted quote escape value ++ delimiter :: quote :: rest).tail.take (m - 2))
      true escape ≠ .ok (target key value) := by
  obtain ⟨k, rfl⟩ := Nat.exists_eq_add_of_le long
  have text : (encodeQuoted quote escape value ++ delimiter :: quote :: rest).tail.take
      ((escapedValue quote escape value).length + 4 + k - 2) =
      escapedValue quote escape value ++ quote :: (delimiter :: quote :: rest).take (k + 1) := by
    have count : (escapedValue quote escape value).length + 4 + k - 2 =
        (escapedValue quote escape value).length + (k + 2) := by omega
    rw [count, encodeQuoted, List.cons_append, List.tail_cons, List.append_assoc,
      List.take_length_add_append]
    rfl
  rw [text, updateDoc, if_neg (by simp), if_pos rfl,
    unescape_escapedValue, unescape_other distinct.quote_escape, set, target,
    if_neg some]
  split
  · simp
  · simp

theorem readFields_merged {behind : Char} {value before rest : Text} {key : Text}
    {expected : List Assignment} {start : Nat} (ends : value.getLast? = some escape)
    (fits : (before ++ (encodeQuoted quote escape value ++ delimiter :: quote :: rest)).length <
      2 ^ 31 - 1) : readFields delimiter quote escape behind
        (before ++ (encodeQuoted quote escape value ++ delimiter :: quote :: rest)) (key :: keys)
        before.length doc ≠ .ok (start, [], doc ++ target key value :: expected) := by
  intro read
  cases found : getField delimiter quote escape true behind
      (encodeQuoted quote escape value ++ delimiter :: quote :: rest) with
  | none =>
    rw [readFields, if_neg (by simp), List.drop_left, found] at read
    cases read
  | some field =>
    obtain ⟨m, rfl, long, inside⟩ := getField_merged distinct ends found
    have some : value ≠ [] := by rintro rfl; cases ends
    rw [readFields_quoted found (by omega) inside fits] at read
    obtain ⟨assignment, assigned, later⟩ := Search.bind_ok_iff.mp read
    obtain ⟨others, same⟩ := readFields_prefix keys later
    rw [List.append_assoc, List.singleton_append, List.append_cancel_left_eq,
      List.cons.injEq] at same
    exact updateDoc_merged distinct long some (same.1 ▸ assigned)

theorem getField_own {behind : Char} {value : Text}
    {values : List Text} (own : value.getLast? = some escape → values = []) :
    getField delimiter quote escape true behind
        (encodeQuoted quote escape value ++ lineRest delimiter quote escape values) =
      some ⟨0, (escapedValue quote escape value).length + 2,
        value.contains quote || decide (value.getLast? = some escape), true⟩ := by
  by_cases ends : value.getLast? = some escape
  · rw [own ends, lineRest, List.append_nil, getField_last distinct ends, decide_eq_true ends,
      Bool.or_true]
  · rw [getField_closed distinct ends (follows_lineRest values), decide_eq_false ends,
      Bool.or_false]

/-- The value of such a field is read if its escapes are undone or it has none. -/
theorem updateDoc_own_iff (key value : Text) : updateDoc key (escapedValue quote escape value)
        (value.contains quote || decide (value.getLast? = some escape)) escape =
          .ok (target key value) ↔ validPointer key = true ∧ (value = [] → '.' ∉ key) ∧
        (value.getLast? ≠ some escape → escape ∈ value → quote ∈ value) := by
  rw [updateDoc_escapedValue, write_eq_target_iff]
  have undone : (if (value.contains quote || decide (value.getLast? = some escape)) = true
      then value else escapedValue quote escape value) = value ↔
      (value.getLast? ≠ some escape → escape ∈ value → quote ∈ value) := by
    by_cases quotes : quote ∈ value
    · simp [quotes]
    · by_cases ends : value.getLast? = some escape
      · simp [ends]
      · have self := escapedValue_eq_self_iff quote escape value
        simp [quotes, ends, self]
  rw [undone]
  exact ⟨fun h => ⟨h.1, h.2.2, h.2.1⟩, fun h => ⟨h.1, h.2.2, h.2.1⟩⟩

theorem readFields_own {behind : Char} {value key before : Text} {keys values : List Text}
    (own : value.getLast? = some escape → values = [])
    (fits : (before ++ (encodeQuoted quote escape value ++
      lineRest delimiter quote escape values)).length < 2 ^ 31 - 1) :
    readFields delimiter quote escape behind
        (before ++ (encodeQuoted quote escape value ++ lineRest delimiter quote escape values))
        (key :: keys) before.length doc = updateDoc key (escapedValue quote escape value)
          (value.contains quote || decide (value.getLast? = some escape)) escape >>= fun assignment =>
        readFields delimiter quote escape behind
          (before ++ (encodeQuoted quote escape value ++ lineRest delimiter quote escape values))
          keys (before.length + (encodeQuoted quote escape value).length + 1)
          (doc ++ [assignment]) := by
  have body : (encodeQuoted quote escape value ++ lineRest delimiter quote escape values).tail.take
      ((escapedValue quote escape value).length + 2 - 2) = escapedValue quote escape value := by
    rw [encodeQuoted, List.cons_append, List.tail_cons, List.append_assoc, Nat.add_sub_cancel,
      List.take_left]
  rw [readFields_quoted (getField_own distinct own) (by omega)
    (by rw [List.length_append, length_encodeQuoted]; omega) fits, body, length_encodeQuoted]

end

/-- The assignments of a line are right if the first one is and the later ones are. -/
theorem readFields_target_iff {behind : Char} {parsed key value text : Text} {flag : Bool}
    {start final : Nat} {doc expected : List Assignment} :
    (updateDoc key text flag escape >>= fun assignment =>
        readFields delimiter quote escape behind parsed keys start (doc ++ [assignment])) =
          .ok (final, [], doc ++ target key value :: expected) ↔
      updateDoc key text flag escape = .ok (target key value) ∧
        readFields delimiter quote escape behind parsed keys start (doc ++ [target key value]) =
          .ok (final, [], (doc ++ [target key value]) ++ expected) := by
  rw [List.append_assoc, List.singleton_append, Search.bind_ok_iff]
  constructor
  · rintro ⟨assignment, wrote, later⟩
    obtain ⟨others, same⟩ := readFields_prefix keys later
    rw [List.append_assoc, List.singleton_append, List.append_cancel_left_eq,
      List.cons.injEq] at same
    obtain rfl := same.1
    exact ⟨wrote, later⟩
  · rintro ⟨wrote, later⟩
    exact ⟨_, wrote, later⟩

/-- **The fields of a line, from any of them on.** -/
theorem readFields_line_iff (distinct : Distinct delimiter quote escape) (behind : Char)
    {values keys : List Text} (before : Text) (doc : List Assignment) (nonempty : values ≠ [])
    (count : keys.length = values.length)
    (fits : (before ++ encodeLine delimiter quote escape values).length < 2 ^ 31 - 1) :
    readFields delimiter quote escape behind (before ++ encodeLine delimiter quote escape values)
        keys before.length doc =
          .ok ((before ++ encodeLine delimiter quote escape values).length + 1, [],
            doc ++ List.zipWith target keys values) ↔ (∀ key ∈ keys, validPointer key = true) ∧
      (∀ pair ∈ keys.zip values, pair.2 = [] → '.' ∉ pair.1) ∧ Legible quote escape values := by
  induction values generalizing keys before doc with
  | nil => exact absurd rfl nonempty
  | cons value values ih =>
    cases keys with
    | nil => cases count
    | cons key keys =>
      rw [encodeLine_cons] at fits ⊢
      rw [List.zipWith_cons_cons, List.forall_mem_cons, List.zip_cons_cons, List.forall_mem_cons,
        Legible]
      by_cases own : value.getLast? = some escape → values = []
      · rw [readFields_own distinct own fits, readFields_target_iff, updateDoc_own_iff distinct]
        have first : (if value.getLast? = some escape then values = []
            else escape ∈ value → quote ∈ value) ↔
            (value.getLast? ≠ some escape → escape ∈ value → quote ∈ value) := by
          split
          · rename_i ends
            simp [ends, own ends]
          · rename_i other
            simp [other]
        cases values with
        | nil =>
          obtain rfl := List.length_eq_zero_iff.mp (Nat.succ.inj count)
          simp [readFields, lineRest, Legible, Nat.add_assoc]
        | cons next values =>
          have text : before ++ (encodeQuoted quote escape value ++
              lineRest delimiter quote escape (next :: values)) =
              (before ++ encodeQuoted quote escape value ++ [delimiter]) ++
                encodeLine delimiter quote escape (next :: values) := by
            simp [lineRest]
          have begins : before.length + (encodeQuoted quote escape value).length + 1 =
              (before ++ encodeQuoted quote escape value ++ [delimiter]).length := by
            simp [Nat.add_assoc]
          rw [text] at fits ⊢
          rw [begins, ih _ _ (List.cons_ne_nil _ _) (Nat.succ.inj count) fits]
          tauto
      · rw [Classical.not_imp] at own
        obtain ⟨ends, more⟩ := own
        obtain ⟨next, values, rfl⟩ := List.exists_cons_of_ne_nil more
        rw [lineRest, encodeLine_cons, encodeQuoted, List.cons_append] at fits ⊢
        constructor
        · intro read
          exact absurd read (readFields_merged distinct ends fits)
        · intro conditions
          have last := conditions.2.2.1
          rw [if_pos ends] at last
          exact absurd last more

theorem legible_iff (values : List Text) : Legible quote escape values ↔
      (∀ value ∈ values.dropLast, value.getLast? ≠ some escape) ∧
      ∀ value ∈ values, escape ∈ value → value.getLast? = some escape ∨ quote ∈ value := by
  induction values with
  | nil => simp [Legible]
  | cons value values ih =>
    rw [Legible, ih, List.forall_mem_cons]
    cases values with
    | nil => split <;> simp_all
    | cons next values =>
      simp only [List.dropLast_cons_cons, List.mem_cons, forall_eq_or_imp]
      split
      · rename_i ends
        simp [ends]
      · rename_i other
        tauto

/-- The parser succeeds with these assignments exactly if all fields are read and nothing of the
text is left. -/
theorem dsvParser_success_iff {behind memory : Char} {stop keys : List Text} {text rest : Text}
    {targetField : Text}
    (stops : toEnd stop (text ++ rest) = some rest) (memorised : rest.headD memory = behind)
    (target : targetField ≠ []) :
    dsvParser stop delimiter quote escape keys targetField memory (text ++ rest) =
        .ok (.success text (some doc) rest) ↔
      readFields delimiter quote escape behind text keys 0 [] = .ok (text.length + 1, [], doc) := by
  have parsed : (text ++ rest).take ((text ++ rest).length - rest.length) = text := by
    rw [List.length_append, Nat.add_sub_cancel, List.take_left]
  simp only [dsvParser, stops, parsed, memorised]
  cases read : readFields delimiter quote escape behind text keys 0 [] with
  | error e => simp [bind, Except.bind]
  | ok result =>
    obtain ⟨start, left, assigned⟩ := result
    simp only [bind, Except.bind, pure, Except.pure, target, if_false]
    split
    · rename_i zero
      simp [zero]
    · rename_i positive
      split
      · rename_i unread
        constructor
        · intro success
          cases cut : substr (text ++ rest) (start - 1) (text ++ rest).length with
          | error e => rw [cut] at success; cases success
          | ok pointed => rw [cut] at success; cases success
        · intro complete
          cases complete
          simp at unread
      · rename_i complete
        rw [not_or, not_not, not_not] at complete
        obtain ⟨rfl, consumed⟩ := complete
        have whole : start = text.length + 1 := by omega
        simp [whole]

end lines

end GuardSarm.Hlp
