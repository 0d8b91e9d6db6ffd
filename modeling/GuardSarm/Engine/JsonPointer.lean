import GuardSarm.Engine.DotPath

/-!
# Dot paths from JSON pointers

`DotPath::fromJsonPath` unescapes the parts of a pointer with two loops that
jump three characters after a replacement, joins the parts with dots and
parses the result again, although the parts may have dots and backslashes.
-/

namespace GuardSarm.Base

open List

/-- A replacement loop of `fromJsonPath`, from `index` on: a tilde with the digit behind it
becomes `by'`. After `index += 3` the two characters behind the new one are not searched. -/
def unescapeLoop (digit by' : Char) : Nat → Text → Text
  | _, [] => []
  | jump + 1, c :: rest => c :: unescapeLoop digit by' jump rest
  | 0, [c] => [c]
  | 0, c :: d :: rest =>
    if c = '~' ∧ d = digit then by' :: unescapeLoop digit by' 2 rest
    else c :: unescapeLoop digit by' 0 (d :: rest)

def unescape (part : Text) : Text := unescapeLoop '1' '/' 0 (unescapeLoop '0' '~' 0 part)

/-- The loop of `split`, with the part that is being read. -/
def splitFrom (delimiter : Char) (part : Text) : Text → List Text
  | [] => if part = [] then [] else [part]
  | c :: rest =>
    if c = delimiter then part :: splitFrom delimiter [] rest
    else splitFrom delimiter (part ++ [c]) rest

def splitOn (str : Text) (delimiter : Char) : List Text :=
  splitFrom delimiter [] (if str.head? = some delimiter then str.tail else str)

def joinDots : List Text → Text
  | [] => []
  | [part] => part
  | part :: next :: rest => part ++ '.' :: joinDots (next :: rest)

def fromJsonPath (jsonPath : Text) : Option DotPath :=
  if jsonPath = [] then some ⟨[], []⟩
  else
    let path := if jsonPath.head? = some '/' then jsonPath.tail else jsonPath
    DotPath.parse (joinDots ((splitOn path '/').map unescape))

/-- The pointer of these keys is read as these keys and written back. -/
def ReadBack (keys : List Text) : Prop :=
  ∃ dotPath, fromJsonPath (pointer keys) = some dotPath ∧ dotPath.parts = keys ∧
    formatJsonPath dotPath.str false = pointer keys

/-- No tilde lies within the two characters of the pointer behind another tilde. -/
def TildesApart : Nat → Text → Prop
  | _, [] => True
  | jump, c :: rest =>
    if c = '~' then jump = 0 ∧ TildesApart 2 rest
    else if c = '/' then TildesApart (jump - 2) rest
    else TildesApart (jump - 1) rest

/-- No slash lies within two characters behind another slash, and no tilde is followed by a
`1`, unless it is one of those two characters. -/
def SlashesApart : Nat → Text → Prop
  | _, [] => True
  | jump, c :: rest =>
    if c = '/' then jump = 0 ∧ SlashesApart 2 rest
    else (c = '~' → jump = 0 → rest.head? ≠ some '1') ∧ SlashesApart (jump - 1) rest

def Survives (key : Text) : Prop := TildesApart 0 key ∧ SlashesApart 0 key

/-- A key with its slashes escaped and its tildes not: what the first loop should leave. -/
def halfEscape (key : Text) : Text := key.flatMap fun c => if c = '/' then ['~', '1'] else [c]

theorem unescapeLoop_skip {digit by' c : Char} (other : c ≠ '~') (jump : Nat) (rest : Text) :
    unescapeLoop digit by' jump (c :: rest) = c :: unescapeLoop digit by' (jump - 1) rest := by
  cases jump with
  | succ jump => rfl
  | zero =>
    cases rest with
    | nil => rfl
    | cons d rest => simp [unescapeLoop, other]

theorem escape_cons (c : Char) (key : Text) : escape (c :: key) = escapeChar c ++ escape key := rfl

theorem halfEscape_cons (c : Char) (key : Text) :
    halfEscape (c :: key) = (if c = '/' then ['~', '1'] else [c]) ++ halfEscape key := rfl

/-- The first loop never loses a `0` of the key and keeps one too many at each tilde it
passes over. -/
theorem unescapeLoop_zero (jump : Nat) (key : Text) :
    (TildesApart jump key → unescapeLoop '0' '~' jump (escape key) = halfEscape key) ∧
      key.count '0' ≤ (unescapeLoop '0' '~' jump (escape key)).count '0' ∧ (¬ TildesApart jump key →
        key.count '0' < (unescapeLoop '0' '~' jump (escape key)).count '0') := by
  induction key generalizing jump with
  | nil => simp [escape, unescapeLoop, TildesApart, halfEscape]
  | cons c key ih =>
    rw [escape_cons, halfEscape_cons, TildesApart]
    by_cases tilde : c = '~'
    · subst tilde
      cases jump with
      | zero =>
        have step := ih 2
        simpa [escapeChar, unescapeLoop] using step
      | succ jump =>
        have step := ih (jump - 1)
        have written : unescapeLoop '0' '~' (jump + 1) (escapeChar '~' ++ escape key) =
            '~' :: '0' :: unescapeLoop '0' '~' (jump - 1) (escape key) := by
          simp [escapeChar, unescapeLoop, unescapeLoop_skip]
        simp only [written, if_true, count_cons]
        simp
        omega
    by_cases slash : c = '/'
    · subst slash
      have step := ih (jump - 2)
      have written : unescapeLoop '0' '~' jump (escapeChar '/' ++ escape key) =
          '~' :: '1' :: unescapeLoop '0' '~' (jump - 2) (escape key) := by
        cases jump with
        | zero => simp [escapeChar, unescapeLoop, unescapeLoop_skip]
        | succ jump => simp [escapeChar, unescapeLoop, unescapeLoop_skip]
      simpa [written] using step
    · have step := ih (jump - 1)
      simp only [escapeChar, tilde, slash, if_false, singleton_append,
        unescapeLoop_skip tilde, count_cons, List.cons.injEq, true_and]
      refine ⟨step.1, by omega, fun apart => ?_⟩
      have := step.2.2 apart
      omega

theorem unescapeLoop_one (jump : Nat) (key : Text) :
    unescapeLoop '1' '/' jump (halfEscape key) = key ↔ SlashesApart jump key := by
  induction key generalizing jump with
  | nil => simp [halfEscape, unescapeLoop, SlashesApart]
  | cons c key ih =>
    rw [halfEscape_cons, SlashesApart]
    by_cases slash : c = '/'
    · subst slash
      cases jump with
      | zero => simp [unescapeLoop, ih]
      | succ jump => simp [unescapeLoop]
    by_cases tilde : c = '~'
    · subst tilde
      cases jump with
      | succ jump => simp [unescapeLoop, ih]
      | zero =>
        cases key with
        | nil => simp [halfEscape, unescapeLoop, SlashesApart]
        | cons d key =>
          have next := ih 0
          rw [halfEscape_cons] at next ⊢
          by_cases one : d = '1'
          · simp [one, unescapeLoop]
          by_cases slash : d = '/'
          · simpa [slash, unescapeLoop] using next
          · simpa [slash, one, unescapeLoop] using next
    · simp [slash, tilde, unescapeLoop_skip tilde, ih]

theorem count_unescapeLoop {digit by' d : Char} (tilde : d ≠ '~') (hdigit : d ≠ digit) (hby : d ≠ by')
    (jump : Nat) (text : Text) : (unescapeLoop digit by' jump text).count d = text.count d := by
  fun_induction unescapeLoop digit by' jump text with
  | case1 => rfl
  | case2 jump c rest ih => simp [count_cons, ih]
  | case3 c => rfl
  | case4 c e rest seen ih => simp [ih, seen, tilde.symm, hdigit.symm, hby.symm]
  | case5 c e rest other ih => simp [count_cons, ih]

theorem count_escape {d : Char} (tilde : d ≠ '~') (slash : d ≠ '/') (zero : d ≠ '0') (one : d ≠ '1')
    (key : Text) : (escape key).count d = key.count d := by
  induction key with
  | nil => rfl
  | cons c key ih =>
    rw [escape_cons, count_append, ih, count_cons, Nat.add_comm]
    unfold escapeChar
    split
    · next h => simp [h, tilde.symm, zero.symm]
    · split
      · next h => simp [h, tilde.symm, slash.symm, one.symm]
      · simp [count_cons]

/-- **A key comes back from its escaped form exactly if it survives the loops.** -/
theorem unescape_escape_iff (key : Text) : unescape (escape key) = key ↔ Survives key := by
  have first := unescapeLoop_zero 0 key
  rw [unescape, Survives]
  by_cases apart : TildesApart 0 key
  · rw [first.1 apart, unescapeLoop_one]
    exact (and_iff_right apart).symm
  · refine ⟨fun same => ?_, fun survives => absurd survives.1 apart⟩
    -- the second loop has no part in the zeros
    have zeros := @count_unescapeLoop '1' '/' '0' (by decide) (by decide) (by decide) 0
      (unescapeLoop '0' '~' 0 (escape key))
    rw [same] at zeros
    have := first.2.2 apart
    omega

theorem slash_notMem_escape (key : Text) : '/' ∉ escape key := by
  intro member
  obtain ⟨c, _, written⟩ := mem_flatMap.mp member
  obtain ⟨d, u, same, first, others, _⟩ := escapeChar_cases c
  rw [same, mem_cons] at written
  cases written with
  | inl head => exact first head.symm
  | inr tail => exact others tail

theorem escape_injective {key key' : Text} (same : escape key = escape key') : key = key' := by
  induction key generalizing key' with
  | nil =>
    cases key' with
    | nil => rfl
    | cons c key' =>
      obtain ⟨d, u, written, _⟩ := escapeChar_cases c
      simp [escape, written] at same
  | cons c key ih =>
    cases key' with
    | nil =>
      obtain ⟨d, u, written, _⟩ := escapeChar_cases c
      simp [escape, written] at same
    | cons c' key' =>
      rw [escape_cons, escape_cons] at same
      unfold escapeChar at same
      grind

theorem pointer_injective {keys keys' : List Text} (same : pointer keys = pointer keys') :
    keys = keys' := by
  induction keys generalizing keys' with
  | nil =>
    cases keys' with
    | nil => rfl
    | cons key' keys' => cases same
  | cons key keys ih =>
    cases keys' with
    | nil => cases same
    | cons key' keys' =>
      -- both escaped keys end at the next slash
      have cut (key : Text) (keys : List Text) :
          (escape key ++ pointer keys).takeWhile (· != '/') = escape key := by
        rw [takeWhile_append_of_pos]
        · cases keys with
          | nil => simp [pointer]
          | cons key keys => simp [pointer_cons]
        · intro c member
          exact bne_iff_ne.mpr fun slash => slash_notMem_escape key (slash ▸ member)
      rw [pointer_cons, pointer_cons, List.cons.injEq] at same
      have heads := congrArg (List.takeWhile (· != '/')) same.2
      rw [cut, cut] at heads
      rw [heads, append_cancel_left_eq] at same
      rw [escape_injective heads, ih same.2]

theorem splitFrom_append {delimiter : Char} {u : Text} (free : delimiter ∉ u) (part rest : Text) :
    splitFrom delimiter part (u ++ rest) = splitFrom delimiter (part ++ u) rest := by
  induction u generalizing part with
  | nil => simp
  | cons c u ih =>
    rw [mem_cons, not_or] at free
    rw [cons_append, splitFrom, if_neg (Ne.symm free.1), ih free.2, append_assoc,
      singleton_append]

variable {keys : List Text}

theorem splitFrom_pointer (nonempty : ∀ key ∈ keys, key ≠ []) {part : Text}
    (started : part ≠ []) : splitFrom '/' part (pointer keys) = part :: keys.map escape := by
  induction keys generalizing part with
  | nil => simp [pointer, splitFrom, started]
  | cons key keys ih =>
    rw [forall_mem_cons] at nonempty
    have written : escape key ≠ [] := fun none => nonempty.1 (escape_injective none)
    rw [pointer_cons, splitFrom, if_pos rfl, splitFrom_append (slash_notMem_escape key),
      nil_append, ih nonempty.2 written, map_cons]

theorem fromJsonPath_pointer (given : keys ≠ [])
    (nonempty : ∀ key ∈ keys, key ≠ []) : fromJsonPath (pointer keys) =
      DotPath.parse (joinDots (keys.map fun key => unescape (escape key))) := by
  obtain ⟨key, keys, rfl⟩ := exists_cons_of_ne_nil given
  rw [forall_mem_cons] at nonempty
  have written : escape key ≠ [] := fun none => nonempty.1 (escape_injective none)
  have start : (escape key ++ pointer keys).head? ≠ some '/' := by
    rw [head?_append_of_ne_nil _ written]
    exact fun slash => slash_notMem_escape key (mem_of_head? slash)
  have parts : splitOn (escape key ++ pointer keys) '/' = (key :: keys).map escape := by
    rw [splitOn, if_neg start, splitFrom_append (slash_notMem_escape key), nil_append,
      splitFrom_pointer nonempty.2 written, map_cons]
  simp [pointer_cons, fromJsonPath, parts, Function.comp_def]

/-- No character of the text has a meaning in a path. -/
def Plain (text : Text) : Prop := '.' ∉ text ∧ '\\' ∉ text

theorem render_plain {r : Reading} (zero : r.elsewhere 0 = 0) {u : Text} (plain : Plain u)
    (rest : Text) : render r 0 (u ++ rest) = escape u ++ render r 0 rest := by
  induction u with
  | nil => rfl
  | cons c u ih =>
    simp only [Plain, mem_cons, not_or] at plain
    rw [cons_append, render, if_neg (Ne.symm plain.2.1), if_neg (Ne.symm plain.1.1), zero,
      ih ⟨plain.1.2, plain.2.2⟩, escape_cons, append_assoc]
    rfl

/-- Keys without dots and backslashes are their own parts. -/
theorem render_joinDots {r : Reading} (start : r.elsewhere 0 = 0 ∧ r.beforeDot 0 = 0 ∧
    r.separates 0 = true) (given : keys ≠ []) (plain : ∀ key ∈ keys, Plain key) :
    '/' :: render r 0 (joinDots keys) = pointer keys := by
  fun_induction joinDots keys with
  | case1 => exact absurd rfl given
  | case2 key =>
    have := render_plain start.1 (plain key (by simp)) []
    simpa [render, start.1, pointer] using this
  | case3 key next rest ih =>
    rw [forall_mem_cons] at plain
    rw [render_plain start.1 plain.1, render, if_neg (by decide), if_pos rfl, start.2.1, start.2.2,
      pointer_cons, ← ih (by simp) plain.2]
    rfl

section necessary

variable {d : Char} {path : Text}

theorem count_undotted (other : d ≠ '.') : (undotted path).count d = path.count d := by
  unfold undotted
  split
  · next leading =>
    obtain ⟨rest, rfl⟩ := head?_eq_some_iff.mp leading
    simp [other.symm]
  · rfl

theorem count_dot_undotted : (undotted path).count '.' ≤ path.count '.' ∧
    ((undotted path).count '.' = path.count '.' → undotted path = path) := by
  unfold undotted
  split
  · next leading =>
    obtain ⟨rest, rfl⟩ := head?_eq_some_iff.mp leading
    simp
  · simp

/-- `formatJsonPath` loses a backslash of every run. -/
theorem count_render_format (run : Nat) (path : Text) :
    (render format run path).count '\\' ≤ run - 1 + path.count '\\' ∧
      (run = 0 → '\\' ∈ path → (render format run path).count '\\' < path.count '\\') := by
  induction path generalizing run with
  | nil => simp [render, format]
  | cons c rest ih =>
    by_cases backslash : c = '\\'
    · have := (ih (run + 1)).1
      simp only [render, backslash, if_true, count_cons_self, Nat.add_sub_cancel] at this ⊢
      omega
    · have next := ih 0
      -- the character behind the run adds no backslash
      have behind : ∃ u : Text, u.count '\\' = 0 ∧
          render format run (c :: rest) = List.replicate (run - 1) '\\' ++ (u ++ render format 0 rest) := by
        rw [render, if_neg backslash]
        by_cases dot : c = '.'
        · refine ⟨[if format.separates run then '/' else '.'], ?_, by rw [if_pos dot]; rfl⟩
          split <;> rfl
        · refine ⟨escapeChar c, ?_, by rw [if_neg dot]; rfl⟩
          have := @count_escape '\\' (by decide) (by decide) (by decide) (by decide) [c]
          simpa [escape, backslash] using this
      obtain ⟨u, none, written⟩ := behind
      rw [written, count_append, count_append, none, count_replicate_self,
        count_cons_of_ne backslash, mem_cons, or_iff_right (Ne.symm backslash)]
      refine ⟨by omega, fun start member => ?_⟩
      have := next.2 rfl member
      omega

theorem render_format_of_notMem (plain : '\\' ∉ path) :
    '.' ∉ render format 0 path ∧ (render format 0 path).count '/' = path.count '.' := by
  induction path with
  | nil => simp [render, format]
  | cons c rest ih =>
    rw [mem_cons, not_or] at plain
    obtain ⟨noDot, slashes⟩ := ih plain.2
    rw [render, if_neg (Ne.symm plain.1)]
    by_cases dot : c = '.'
    · simp [dot, format] at noDot slashes ⊢
      exact ⟨noDot, slashes⟩
    · have slashFree : '/' ∉ escapeChar c := by simpa [escape] using slash_notMem_escape [c]
      have dotFree : '.' ∉ escapeChar c := by
        have := @count_escape '.' (by decide) (by decide) (by decide) (by decide) [c]
        simpa [escape, dot, count_eq_zero] using this
      simp [dot, format, slashFree, dotFree, count_eq_zero_of_not_mem] at noDot slashes ⊢
      exact ⟨noDot, slashes⟩

theorem count_pointer (tilde : d ≠ '~') (slash : d ≠ '/') (zero : d ≠ '0') (one : d ≠ '1')
    (keys : List Text) : (pointer keys).count d = keys.flatten.count d := by
  induction keys with
  | nil => rfl
  | cons key keys ih =>
    rw [pointer_cons, count_cons_of_ne slash.symm, count_append, ih,
      count_escape tilde slash zero one, flatten_cons, count_append]

theorem count_slash_pointer (keys : List Text) : (pointer keys).count '/' = keys.length := by
  induction keys with
  | nil => rfl
  | cons key keys ih =>
    rw [pointer_cons, count_cons_self, count_append, ih,
      count_eq_zero_of_not_mem (slash_notMem_escape key), length_cons, Nat.zero_add]

theorem count_joinDots (keys : List Text) : (joinDots keys).count d =
    keys.flatten.count d + if d = '.' then keys.length - 1 else 0 := by
  fun_induction joinDots keys with
  | case1 => simp
  | case2 key => simp
  | case3 key next rest ih =>
    rw [count_append, count_cons, ih, flatten_cons, count_append]
    by_cases dot : d = '.'
    · simp [dot]
      omega
    · simp [dot, Ne.symm dot]

theorem count_unescape_escape (special : d = '.' ∨ d = '\\') (key : Text) :
    (unescape (escape key)).count d = key.count d := by
  have others : d ≠ '~' ∧ d ≠ '/' ∧ d ≠ '0' ∧ d ≠ '1' := by
    cases special with
    | inl dot => rw [dot]; decide
    | inr backslash => rw [backslash]; decide
  obtain ⟨tilde, slash, zero, one⟩ := others
  rw [unescape, count_unescapeLoop tilde one slash, count_unescapeLoop tilde zero tilde,
    count_escape tilde slash zero one]

end necessary

theorem ReadBack.plain (given : keys ≠ []) (nonempty : ∀ key ∈ keys, key ≠ [])
    (readBack : ReadBack keys) : ∀ key ∈ keys, Survives key ∧ Plain key := by
  obtain ⟨dotPath, accepted, -, formatted⟩ := readBack
  rw [fromJsonPath_pointer given nonempty] at accepted
  set read := keys.map fun key => unescape (escape key) with readKeys
  have counts {d : Char} (special : d = '.' ∨ d = '\\') :
      read.flatten.count d = keys.flatten.count d := by
    rw [readKeys, count_flatten, count_flatten, map_map]
    congr 2
    funext key
    exact count_unescape_escape special key
  rw [(pointer_parts accepted).1, formatJsonPath_eq] at formatted
  swap
  · intro dot
    rw [dot] at formatted
    exact given (@pointer_injective keys [] formatted.symm)
  set path := undotted (undotted (joinDots read)) with shape
  have backslashes : path.count '\\' = keys.flatten.count '\\' := by
    rw [shape, count_undotted (by decide), count_undotted (by decide), count_joinDots,
      if_neg (by decide), counts (.inr rfl), Nat.add_zero]
  -- the pointer has all backslashes of the path, so there are none
  have noBackslash : '\\' ∉ path := by
    intro member
    have fewer := (count_render_format 0 path).2 rfl member
    rw [backslashes, ← count_pointer (by decide) (by decide) (by decide) (by decide), ← formatted,
      count_cons_of_ne (by decide)] at fewer
    exact Nat.lt_irrefl _ fewer
  obtain ⟨noDot, slashes⟩ := render_format_of_notMem noBackslash
  have plain : keys.flatten.count '\\' = 0 ∧ keys.flatten.count '.' = 0 := by
    rw [← backslashes, ← count_pointer (by decide) (by decide) (by decide) (by decide), ← formatted,
      count_cons_of_ne (by decide)]
    exact ⟨count_eq_zero_of_not_mem noBackslash, count_eq_zero_of_not_mem noDot⟩
  -- all dots of the path stand between keys
  have whole : path = joinDots read := by
    have total := congrArg (List.count '/') formatted
    have dots := @count_joinDots '.' read
    have once := @count_dot_undotted (joinDots read)
    have twice := @count_dot_undotted (undotted (joinDots read))
    rw [count_cons_self, slashes, count_slash_pointer] at total
    rw [if_pos rfl, counts (.inl rfl), plain.2, readKeys, length_map, ← readKeys] at dots
    rw [← shape] at twice
    rw [twice.2 (by omega), once.2 (by omega)]
  have readPlain : ∀ key ∈ read, Plain key := by
    intro key member
    have absent {d : Char} (special : d = '.' ∨ d = '\\') (none : keys.flatten.count d = 0) : d ∉ key :=
      fun inside => count_eq_zero.mp (counts special ▸ none)
        (mem_flatten.mpr ⟨key, member, inside⟩)
    exact ⟨absent (.inl rfl) plain.2, absent (.inr rfl) plain.1⟩
  have same : read = keys := by
    apply pointer_injective
    rw [← formatted, whole, render_joinDots ⟨rfl, rfl, rfl⟩ (by simpa [readKeys] using given) readPlain]
  intro key member
  have back : unescape (escape key) = key :=
    map_inj_left.mp (same.trans keys.map_id.symm) key member
  exact ⟨(unescape_escape_iff key).mp back, readPlain key (same ▸ member)⟩

theorem ReadBack.of_plain (given : keys ≠ []) (nonempty : ∀ key ∈ keys, key ≠ [])
    (plain : ∀ key ∈ keys, Survives key ∧ Plain key) : ReadBack keys := by
  have same : (keys.map fun key => unescape (escape key)) = keys :=
    (map_inj_left.mpr fun key member => (unescape_escape_iff key).mpr (plain key member).1).trans
      keys.map_id
  have pointers {r : Reading} (start : r.elsewhere 0 = 0 ∧ r.beforeDot 0 = 0 ∧ r.separates 0 = true) :=
    render_joinDots start given fun key member => (plain key member).2
  have start : ∃ c rest, joinDots keys = c :: rest ∧ c ≠ '.' := by
    obtain ⟨key, others, rfl⟩ := exists_cons_of_ne_nil given
    obtain ⟨c, key, rfl⟩ := exists_cons_of_ne_nil (nonempty key mem_cons_self)
    have noDot : c ≠ '.' := by
      rintro rfl
      exact (plain _ mem_cons_self).2.1 mem_cons_self
    cases others with
    | nil => exact ⟨c, key, rfl, noDot⟩
    | cons next others => exact ⟨c, _, rfl, noDot⟩
  obtain ⟨c, rest, written, noDot⟩ := start
  have inner : undotted (joinDots keys) = joinDots keys := by simp [undotted, written, noDot]
  have other : joinDots keys ≠ ['.'] := by simp [written, noDot]
  have parts : splitEscaped (joinDots keys) '.' '\\' = keys :=
    pointer_injective (by rw [pointer_splitEscaped, pointers ⟨rfl, rfl, rfl⟩])
  refine ⟨⟨joinDots keys, keys⟩, ?_, rfl, by rw [formatJsonPath_eq other, inner, pointers ⟨rfl, rfl, rfl⟩]⟩
  rw [fromJsonPath_pointer given nonempty, same]
  have full : keys.any (fun part => part.isEmpty && joinDots keys != ['.']) = false := by
    simpa using fun key member none => absurd none (nonempty key member)
  have some : joinDots keys ≠ [] := by simp [written]
  simp [DotPath.parse, inner, parts, full, some]

/-- **A pointer is read back exactly if its keys survive the loops and have no dot and no
backslash.** -/
theorem fromJsonPath_iff (keys : List Text) (given : keys ≠ []) (nonempty : ∀ key ∈ keys, key ≠ []) :
    ReadBack keys ↔ ∀ key ∈ keys, Survives key ∧ Plain key :=
  ⟨ReadBack.plain given nonempty, ReadBack.of_plain given nonempty⟩

theorem fromJsonPath_iff_slash : ReadBack [['a', '/', 'b'], ['~']] ↔
    ∀ key ∈ [['a', '/', 'b'], ['~']], Survives key ∧ Plain key :=
  fromJsonPath_iff [['a', '/', 'b'], ['~']] (by decide) (by decide)

/-- The one key `a.b` is read as two parts. -/
theorem fromJsonPath_splits_key :
    fromJsonPath (pointer [['a', '.', 'b']]) = some ⟨['a', '.', 'b'], [['a'], ['b']]⟩ ∧
      ¬ ReadBack [['a', '.', 'b']] := by
  have read : fromJsonPath (pointer [['a', '.', 'b']]) = some ⟨['a', '.', 'b'], [['a'], ['b']]⟩ := by
    decide
  refine ⟨read, ?_⟩
  rintro ⟨dotPath, accepted, parts, _⟩
  rw [read] at accepted
  cases accepted
  revert parts
  decide

end GuardSarm.Base
