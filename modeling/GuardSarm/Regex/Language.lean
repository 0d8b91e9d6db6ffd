import GuardSarm.Lib.Pattern
import GuardSarm.Lib.Search
import GuardSarm.Regex.Execute

/-!
# The language of a pattern

A pattern is read as a list of signs, cut at the bars, and each alternative
gives the items that a word of it has to consist of. This reading is the
specification. A compiled sub pattern is read once more, by `textItems`, from
the text that the matcher walks over; `compile_items` relates the two.
-/

namespace GuardSarm.Regex

open List

open Pattern

inductive Sign where
  | cls (code : Nat)
  | char (c : Char)
  deriving DecidableEq

/-- A pattern as its signs, unless it has a backslash before a letter that names no class. -/
def signs : Text → Option (List Sign)
  | [] => some []
  | ['\\'] => none
  | '\\' :: c :: rest => do return .cls (← classCode c) :: (← signs rest)
  | c :: rest => do return .char c :: (← signs rest)

def classItem (code : Nat) (times : Times) : Item Char :=
  ⟨fun x => inRanges (regexmap code) x = true, times⟩

/-- Literals match in either case. -/
def literal (c : Char) : Item Char := ⟨fun x => charmap x = charmap c, .once⟩

/-- What a word of an alternative consists of: parentheses only group. -/
def items : List Sign → List (Item Char)
  | [] => []
  | .cls k :: .char '+' :: rest => classItem k .plus :: items rest
  | .cls k :: .char '*' :: rest => classItem k .star :: items rest
  | .cls k :: rest => classItem k .once :: items rest
  | .char '(' :: rest => items rest
  | .char ')' :: rest => items rest
  | .char c :: rest => literal c :: items rest

structure Alternative where
  body : List Sign
  begins : Bool
  ends : Bool

def alternative (signs : List Sign) : Alternative :=
  let begins := signs.head? = some (.char '^')
  let signs := if begins then signs.tail else signs
  let ends := signs.getLast? = some (.char '$')
  ⟨if ends then signs.dropLast else signs, begins, ends⟩

/-- The string holds a word of an alternative of the pattern, at its start for `^` and at its end
for `$`. -/
def InLanguage (pattern str : Text) : Prop :=
  ∃ all, signs pattern = some all ∧ ∃ part ∈ all.splitOn (.char '|'),
    Occurs (items (alternative part).body) (alternative part).begins (alternative part).ends str

/-- What the matcher has to find for a compiled sub pattern. -/
def textItems : Text → List (Item Char)
  | [] => []
  | ['\\'] => [⟨fun x => regex nul x = true, .once⟩]
  | '\\' :: k :: '+' :: rest => ⟨fun x => regex k x = true, .plus⟩ :: textItems rest
  | '\\' :: k :: '*' :: rest => ⟨fun x => regex k x = true, .star⟩ :: textItems rest
  | '\\' :: k :: rest => ⟨fun x => regex k x = true, .once⟩ :: textItems rest
  | '(' :: rest => textItems rest
  | p :: rest => ⟨fun x => p = charmap x, .once⟩ :: textItems rest

section compiled

/-- The character that stands for `c` in a compiled pattern. -/
def fold (caseSensitive : Bool) (c : Char) : Char :=
  let c := if c = ')' then '(' else c
  if caseSensitive then c else charmap c

def render (caseSensitive : Bool) : Sign → Text
  | .cls k => ['\\', Char.ofNat k]
  | .char c => [fold caseSensitive c]

def Sign.Valid : Sign → Prop
  | .cls k => k ≤ 15
  | .char c => c ≠ '\\'

theorem eq_of_charmap_eq {c d : Char} (h : charmap c = d) (small : d.isLower = false) : c = d := by
  by_cases upper : c.isUpper
  · have lower : (charmap c).isLower = c.isAlpha := Char.isLower_toLower_eq_isAlpha c
    rw [h, small, Char.isAlpha, upper] at lower
    cases lower
  · rw [← h, charmap, Char.toLower_eq_of_not_isUpper upper]

variable {caseSensitive : Bool}

/-- The signs with a meaning of their own stand for themselves. -/
theorem fold_eq_iff {c d : Char} (special : d ∈ ['+', '*', '\\', '|', '^', '$']) :
    fold caseSensitive c = d ↔ c = d := by
  have plain : d ≠ '(' ∧ d ≠ ')' ∧ d.isLower = false ∧ charmap d = d := by
    simp only [mem_cons, not_mem_nil, or_false] at special
    rcases special with rfl | rfl | rfl | rfl | rfl | rfl <;> decide
  obtain ⟨opened, closed, small, kept⟩ := plain
  unfold fold
  by_cases close : c = ')'
  · subst close
    have unfolded : charmap '(' = '(' := by decide
    simp [unfolded, Ne.symm opened, Ne.symm closed]
  · rw [if_neg close]
    cases caseSensitive with
    | true => rfl
    | false =>
      constructor
      · intro same
        exact eq_of_charmap_eq same small
      · rintro rfl
        exact kept

theorem fold_eq_paren_iff {c : Char} : fold caseSensitive c = '(' ↔ c = '(' ∨ c = ')' := by
  unfold fold
  by_cases close : c = ')'
  · subst close
    cases caseSensitive <;> decide
  · rw [if_neg close, or_iff_left close]
    cases caseSensitive with
    | true => rfl
    | false =>
      constructor
      · intro same
        exact eq_of_charmap_eq same (by decide)
      · rintro rfl
        decide

@[simp]
theorem fold_plus : fold caseSensitive '+' = '+' := (fold_eq_iff (by decide)).mpr rfl

@[simp]
theorem fold_star : fold caseSensitive '*' = '*' := (fold_eq_iff (by decide)).mpr rfl

@[simp]
theorem fold_open : fold caseSensitive '(' = '(' := fold_eq_paren_iff.mpr (.inl rfl)

@[simp]
theorem fold_close : fold caseSensitive ')' = '(' := fold_eq_paren_iff.mpr (.inr rfl)

theorem charmap_fold {c x : Char} (close : c ≠ ')') (h : fold caseSensitive c = charmap x) :
    charmap x = charmap c := by
  unfold fold at h
  rw [if_neg close] at h
  cases caseSensitive with
  | true =>
    rw [if_pos rfl] at h
    rw [h, charmap, charmap, Char.toLower_toLower_eq_toLower]
  | false => exact h.symm

/-- A text of a compiled pattern, and the signs that it comes from. -/
def Renders (caseSensitive : Bool) (part : List Sign) (text : Text) : Prop :=
  (∀ sign ∈ part, sign.Valid) ∧ text = part.flatMap (render caseSensitive)

variable {part : List Sign} {text : Text}

theorem Renders.cons {sign : Sign} (valid : sign.Valid) (h : Renders caseSensitive part text) :
    Renders caseSensitive (sign :: part) (render caseSensitive sign ++ text) := by
  obtain ⟨others, rfl⟩ := h
  exact ⟨forall_mem_cons.mpr ⟨valid, others⟩, rfl⟩

theorem classCode_le {c : Char} {k : Nat} (h : classCode c = some k) : k ≤ 15 := by
  revert h
  fun_cases classCode c <;> simp <;> omega

theorem translate_ok {parenthesis : Int} {pattern text : Text}
    (h : translate caseSensitive parenthesis pattern = .ok text) :
    ∃ all, signs pattern = some all ∧ Renders caseSensitive all text := by
  fun_induction translate caseSensitive parenthesis pattern generalizing text with
  | case1 | case3 | case4 | case6 | case7 => cases h
  | case2 =>
    cases h
    exact ⟨[], rfl, by simp, rfl⟩
  | case5 parenthesis c rest k named ih =>
    obtain ⟨text, translated, same⟩ := Search.bind_ok_iff.mp h
    obtain ⟨all, read, renders⟩ := ih translated
    cases same
    exact ⟨.cls k :: all, by rw [signs, named, read]; rfl, renders.cons (classCode_le named)⟩
  | case8 _ c rest lone escaped =>
    rename_i ih
    obtain ⟨text, translated, same⟩ := Search.bind_ok_iff.mp h
    obtain ⟨all, read, renders⟩ := ih translated
    cases same
    have plain : c ≠ '\\' := by
      intro backslash
      cases rest with
      | nil => exact lone backslash rfl
      | cons d rest => exact escaped d rest backslash rfl
    have read' : signs (c :: rest) = some (.char c :: all) := by
      rw [signs, read]
      · rfl
      · exact lone
      · exact escaped
    exact ⟨.char c :: all, read', renders.cons plain⟩

theorem splitOn_cons {α : Type} [DecidableEq α] (a b : α) (l : List α) :
    (b :: l).splitOn a = if b = a then [] :: l.splitOn a else (l.splitOn a).modifyHead (b :: ·) := by
  simp only [List.splitOn, splitOnP_cons_eq_if_modifyHead, beq_iff_eq]

theorem forall₂_modifyHead {α β : Type} {R : α → β → Prop} {f : α → α} {g : β → β}
    {l : List α} {m : List β} (h : List.Forall₂ R l m) (step : ∀ a b, R a b → R (f a) (g b)) :
    List.Forall₂ R (l.modifyHead f) (m.modifyHead g) := by
  cases h with
  | nil => exact .nil
  | cons head tail => exact .cons (step _ _ head) tail

theorem exists_of_forall₂ {α β : Type} {R : α → β → Prop} {l : List α} {m : List β}
    (h : List.Forall₂ R l m) {b : β} (member : b ∈ m) : ∃ a ∈ l, R a b := by
  induction h with
  | nil => cases member
  | cons head _ ih =>
    cases member with
    | head => exact ⟨_, mem_cons_self, head⟩
    | tail _ member =>
      obtain ⟨a, found, related⟩ := ih member
      exact ⟨a, mem_cons_of_mem _ found, related⟩

/-- The number of a class is none of the signs that cut a pattern. -/
theorem ofNat_ne {k : Nat} (valid : k ≤ 15) : Char.ofNat k ≠ '|' ∧ Char.ofNat k ≠ '$' := by
  interval_cases k <;> decide

/-- The bars of a compiled pattern are the bars of the pattern. -/
theorem splitOn_render {all : List Sign} (h : Renders caseSensitive all text) :
    List.Forall₂ (Renders caseSensitive) (all.splitOn (.char '|')) (text.splitOn '|') := by
  obtain ⟨valid, rfl⟩ := h
  induction all with
  | nil => exact .cons ⟨by simp, rfl⟩ .nil
  | cons sign all ih =>
    rw [forall_mem_cons] at valid
    obtain ⟨first, others⟩ := valid
    have extended := forall₂_modifyHead (ih others) fun _ _ => Renders.cons first
    rw [splitOn_cons, flatMap_cons]
    cases sign with
    | cls k =>
      rw [if_neg (by simp)]
      simp only [render, cons_append, nil_append] at extended ⊢
      rw [splitOn_cons, if_neg (by decide), splitOn_cons, if_neg (ofNat_ne first).1,
        modifyHead_modifyHead]
      exact extended
    | char c =>
      simp only [render, cons_append, nil_append] at extended ⊢
      rw [splitOn_cons]
      by_cases bar : c = '|'
      · rw [if_pos (congrArg Sign.char bar), if_pos ((fold_eq_iff (by decide)).mpr bar)]
        exact .cons ⟨by simp, rfl⟩ (ih others)
      · rw [if_neg (by simpa using bar), if_neg fun same => bar ((fold_eq_iff (by decide)).mp same)]
        exact extended

section

variable (h : Renders caseSensitive part text)
include h

theorem Renders.head?_eq : text.head? = some '^' ↔ part.head? = some (.char '^') := by
  obtain ⟨_, rfl⟩ := h
  cases part with
  | nil => simp
  | cons sign part =>
    cases sign with
    | cls k => simp [render]
    | char c => simp [render, fold_eq_iff]

theorem Renders.getLast?_eq : text.getLast? = some '$' ↔ part.getLast? = some (.char '$') := by
  obtain ⟨valid, rfl⟩ := h
  cases part using List.reverseRecOn with
  | nil => simp
  | append_singleton part sign =>
    cases sign with
    | cls k => simp [render, (ofNat_ne (valid (.cls k) (by simp))).2]
    | char c => simp [render, fold_eq_iff]

theorem Renders.tail
    (begins : part.head? = some (.char '^')) : Renders caseSensitive part.tail text.tail := by
  obtain ⟨valid, rfl⟩ := h
  cases part with
  | nil => cases begins
  | cons sign part =>
    cases begins
    exact ⟨(forall_mem_cons.mp valid).2, rfl⟩

theorem Renders.dropLast (ends : part.getLast? = some (.char '$')) :
    Renders caseSensitive part.dropLast text.dropLast := by
  obtain ⟨valid, rfl⟩ := h
  cases part using List.reverseRecOn with
  | nil => cases ends
  | append_singleton part sign =>
    have last : sign = .char '$' := by simpa using ends
    subst last
    refine ⟨fun sign member => valid sign (by simp [dropLast_concat.symm ▸ member]), ?_⟩
    simp [render]

/-- The circumflex and the dollar of a compiled sub pattern are those of its alternative. -/
theorem subPattern_render :
    Renders caseSensitive (alternative part).body (subPattern text).pattern ∧
      (subPattern text).beginSet = (alternative part).begins ∧
      (subPattern text).endSet = (alternative part).ends := by
  have opened : Renders caseSensitive
      (if part.head? = some (.char '^') then part.tail else part)
      (if text.head? = some '^' then text.tail else text) := by
    by_cases begins : part.head? = some (.char '^')
    · rw [if_pos begins, if_pos (h.head?_eq.mpr begins)]
      exact h.tail begins
    · rw [if_neg begins, if_neg (mt h.head?_eq.mp begins)]
      exact h
  refine ⟨?_, decide_eq_decide.mpr h.head?_eq, ?_⟩
  · simp only [subPattern, alternative]
    generalize (if part.head? = some (.char '^') then part.tail else part) = part at opened
    generalize (if text.head? = some '^' then text.tail else text) = text at opened
    by_cases ends : part.getLast? = some (.char '$')
    · rw [if_pos ends, if_pos (opened.getLast?_eq.mpr ends)]
      exact opened.dropLast ends
    · rw [if_neg ends, if_neg (mt opened.getLast?_eq.mp ends)]
      exact opened
  · simp only [subPattern, alternative]
    exact decide_eq_decide.mpr opened.getLast?_eq

end

theorem textItems_class {k : Char} {rest : Text} (plain : isPlus (charAt rest 0) = false) :
    textItems ('\\' :: k :: rest) = ⟨fun x => regex k x = true, .once⟩ :: textItems rest := by
  rw [textItems]
  · rintro rest' rfl
    cases plain
  · rintro rest' rfl
    cases plain

theorem textItems_literal {p : Char} {rest : Text} (escape : p ≠ '\\') (paren : p ≠ '(') :
    textItems (p :: rest) = ⟨fun x => p = charmap x, .once⟩ :: textItems rest := by
  rw [textItems]
  all_goals grind

/-- A class is followed by a repetition in the compiled text when it is in the pattern. -/
theorem isPlus_render (plus : ∀ rest, part ≠ .char '+' :: rest)
    (star : ∀ rest, part ≠ .char '*' :: rest) :
    isPlus (charAt (part.flatMap (render caseSensitive)) 0) = false := by
  cases part with
  | nil => rfl
  | cons sign part =>
    cases sign with
    | cls k => rfl
    | char c =>
      have others : fold caseSensitive c ≠ '+' ∧ fold caseSensitive c ≠ '*' := by
        rw [ne_eq, ne_eq, fold_eq_iff (by decide), fold_eq_iff (by decide)]
        exact ⟨fun same => plus part (by rw [same]), fun same => star part (by rw [same])⟩
      simpa [isPlus, charAt, render] using others

theorem regex_ofNat {k : Nat} (valid : k ≤ 15) (x : Char) :
    regex (Char.ofNat k) x = inRanges (regexmap k) x := by
  have code : (Char.ofNat k).toNat = k := by interval_cases k <;> rfl
  rw [regex, code]

theorem narrower_class {k : Nat} {times : Times} (valid : k ≤ 15) :
    Item.Narrower ⟨fun x => regex (Char.ofNat k) x = true, times⟩ (classItem k times) :=
  ⟨rfl, fun x accepted => (regex_ofNat valid x).symm.trans accepted⟩

/-- What the matcher has to find is what a word of the alternative consists of. -/
theorem textItems_render (h : Renders caseSensitive part text) :
    List.Forall₂ Item.Narrower (textItems text) (items part) := by
  obtain ⟨valid, rfl⟩ := h
  fun_induction items part with
  | case1 => exact .nil
  | case2 k rest ih | case3 k rest ih =>
    simp only [forall_mem_cons] at valid
    simp only [flatMap_cons, render, cons_append, nil_append, fold_plus, fold_star]
    rw [textItems]
    exact .cons (narrower_class valid.1) (ih valid.2.2)
  | case4 k rest plus star ih =>
    rw [forall_mem_cons] at valid
    simp only [flatMap_cons, render, cons_append, nil_append]
    rw [textItems_class (isPlus_render plus star)]
    exact .cons (narrower_class valid.1) (ih valid.2)
  | case5 rest ih | case6 rest ih =>
    rw [forall_mem_cons] at valid
    simp only [flatMap_cons, render, cons_append, nil_append, fold_open, fold_close]
    rw [textItems]
    exact ih valid.2
  | case7 c rest opened closed ih =>
    rw [forall_mem_cons] at valid
    have escape : fold caseSensitive c ≠ '\\' := mt (fold_eq_iff (by decide)).mp valid.1
    have paren : fold caseSensitive c ≠ '(' := by
      rw [ne_eq, fold_eq_paren_iff]
      exact not_or.mpr ⟨opened, closed⟩
    simp only [flatMap_cons, render, cons_append, nil_append]
    rw [textItems_literal escape paren]
    exact .cons ⟨rfl, fun x accepted => charmap_fold closed accepted⟩ (ih valid.2)

/-- What a compiled sub pattern has found is in the language of the pattern. -/
theorem compile_items {pattern str : Text} {flags : CompileFlags} {reg : OSRegex} {sub : SubPattern}
    (compiled : compile pattern flags = .ok reg) (member : sub ∈ reg.patterns)
    (found : Occurs (textItems sub.pattern) sub.beginSet sub.endSet str) :
    InLanguage pattern str := by
  unfold compile at compiled
  split at compiled
  · cases compiled
  · obtain ⟨text, translated, same⟩ := Search.bind_ok_iff.mp compiled
    cases same
    obtain ⟨text', cut, rfl⟩ := mem_map.mp member
    obtain ⟨all, read, renders⟩ := translate_ok translated
    obtain ⟨part, of, rendered⟩ := exists_of_forall₂ (splitOn_render renders) cut
    obtain ⟨body, begins, ends⟩ := subPattern_render rendered
    refine ⟨all, read, part, of, ?_⟩
    rw [← begins, ← ends]
    exact found.mono (textItems_render body)

end compiled

end GuardSarm.Regex
