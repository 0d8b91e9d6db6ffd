import GuardSarm.Remote.AddressSpec

/-! What an address specification says, and where the matcher disagrees. A specification
names a network of one family, or any address, and may be negated. `OS_IsValidIP` drops
the mark of negation before it keeps the text, so `OS_IPFound` never sees it; and
`OS_IPFound` reads the block as the address's family has it, not the specification's. -/
namespace GuardSarm.Remote

open List

/-- A mask of so many leading bits, or one that is written out. -/
inductive Mask (n : Nat)
  | leading (bits : Nat)
  | netmask (bytes : Fin n → BitVec 8)

def Mask.bytes {n : Nat} : Mask n → Fin n → BitVec 8
  | .leading bits => prefixMask n bits
  | .netmask bytes => bytes

def Mask.Agree {n : Nat} (mask : Mask n) (a b : Fin n → BitVec 8) : Prop :=
  match mask with
  | .leading bits =>
    ∀ (i : Fin n), ∀ j < 8, 8 * (i : Nat) + j < bits → (a i).getMsbD j = (b i).getMsbD j
  | .netmask bytes => EqualUnder bytes a b

inductive Network
  | any
  | v4 (net : Fin 4 → BitVec 8) (mask : Mask 4)
  | v6 (net : Fin 16 → BitVec 8) (mask : Mask 16)

/-- The address is of the network's family and equal to it under the mask. -/
def Network.Contains : Network → Address → Prop
  | .any, _ => True
  | .v4 net mask, .v4 source => mask.Agree source net
  | .v6 net mask, .v6 source => mask.Agree source net
  | _, _ => False

structure Spec where
  negated : Bool
  network : Network

def Spec.Admits (spec : Spec) (source : Address) : Prop :=
  if spec.negated then ¬spec.network.Contains source else spec.network.Contains source

/-- The address of a specification, and what follows its slash. -/
def splitMask (text : Text) : Text × Option Text :=
  let text := dropNewline text
  (text.takeWhile (· != '/'), (text.dropWhile (· != '/')).tail?)

/-- Nothing is the longest mask, digits are a number of leading bits. -/
def readMask {n : Nat} (numeric : Text → Option (Fin n → BitVec 8)) : Option Text → Option (Mask n)
  | none => some (.leading (8 * n))
  | some mask =>
    if mask.all Char.isDigit then some (.leading (atoi mask)) else (numeric mask).map .netmask

def readNetwork (pton : InetPton) (text : Text) : Option Network :=
  if text = "any".toList then some .any
  else
    let (address, mask) := splitMask (dropMapped text)
    if isIpv4Address address then
      (pton.ipv4 address).bind fun net => (readMask pton.ipv4 mask).map (.v4 net)
    else
      let (address, mask) := splitMask text
      (pton.ipv6 address).bind fun net => (readMask (fun _ => none) mask).map (.v6 net)

def Spec.ofText (pton : InetPton) : Text → Option Spec
  | '!' :: rest => (readNetwork pton rest).map (⟨true, ·⟩)
  | text => (readNetwork pton text).map (⟨false, ·⟩)

/-- The bytes that are read in place of the other family's coincide with the address. -/
def Coincides (heap : Nat → BitVec 8) : Network → Address → Prop
  | .v6 net mask, .v4 source => ∀ i : Fin 4, source i &&&
      (masked net mask.bytes).getD (4 + i) (heap (4 + i)) = (masked net mask.bytes).getD i (heap i)
  | .v4 net mask, .v6 source => ∀ i : Fin 16, source i &&&
      (masked net mask.bytes).getD (16 + i) (heap (16 + i)) = (masked net mask.bytes).getD i (heap i)
  | _, _ => False

/-- The address is of the other family than the specification. -/
def Network.foreign : Network → Address → Bool
  | .v6 _ _, .v4 _ | .v4 _ _, .v6 _ => true
  | _, _ => false

/-- The specification is not negated and names any address or the address's family, or, for an
address of the other family, the bytes read coincide exactly when it is negated. -/
def Spec.Told (spec : Spec) (heap : Nat → BitVec 8) (source : Address) : Prop :=
  if spec.network.foreign source then Coincides heap spec.network source ↔ spec.negated = true
  else spec.negated = false

section masks

theorem convertByte_eq {index : Nat} (small : index ≤ 8) : convertByte index = maskByte index := by
  interval_cases index <;> decide

theorem getD_convertBytes (left netnumb i : Nat) (inside : i < left) :
    (convertBytes left netnumb).getD i 0 = maskByte (netnumb - 8 * i) := by
  induction left generalizing netnumb i with
  | zero => omega
  | succ left ih =>
    cases i with
    | zero =>
      simp only [convertBytes, getD_cons_zero, Nat.mul_zero, Nat.sub_zero]
      split
      · rename_i long
        rw [convertByte_eq le_rfl, maskByte, maskByte, Nat.sub_eq_zero_of_le long.le]
      · exact convertByte_eq (by omega)
    | succ i =>
      simp only [convertBytes, getD_cons_succ]
      rw [ih _ i (by omega)]
      congr 1
      split <;> omega

theorem convertNetmask_eq {netnumb : Nat} (small : netnumb ≤ 128) :
    convertNetmask netnumb = some (prefixMask 16 netnumb) := by
  rw [convertNetmask, if_neg (by omega)]
  congr 1
  funext i
  exact getD_convertBytes 16 netnumb i i.isLt

theorem netmask_eq {cidr : Nat} (small : cidr ≤ 32) : netmask cidr = prefixMask 4 cidr := by
  interval_cases cidr <;> decide

end masks

section texts

variable {text : Text}

/-- What holds of the characters of every piece holds of the text, apart from the separators. -/
theorem forall_of_splitOn {p : Char → Prop} {x : Char}
    (pieces : ∀ piece ∈ text.splitOn x, ∀ c ∈ piece, p c) : ∀ c ∈ text, c = x ∨ p c := by
  induction text with
  | nil => simp
  | cons first rest ih =>
    rw [splitOn_eq_splitOnP, splitOnP_cons_eq_if_modifyHead,
      ← splitOn_eq_splitOnP] at pieces
    by_cases same : first = x
    · rw [if_pos (by simpa using same)] at pieces
      intro c member
      rcases mem_cons.mp member with rfl | later
      · exact .inl same
      · exact ih (fun piece here => pieces piece (mem_cons_of_mem _ here)) c later
    · rw [if_neg (by simpa using same)] at pieces
      obtain ⟨head, tail, split⟩ := exists_cons_of_ne_nil (splitOn_ne_nil x rest)
      rw [split, modifyHead_cons] at pieces
      rw [split] at ih
      intro c member
      rcases mem_cons.mp member with rfl | later
      · exact .inr (pieces _ mem_cons_self c mem_cons_self)
      · refine ih (fun piece here d inside => ?_) c later
        rcases mem_cons.mp here with rfl | other
        · exact pieces _ mem_cons_self d (mem_cons_of_mem _ inside)
        · exact pieces piece (mem_cons_of_mem _ other) d inside

theorem isDigit_iff {c : Char} : c.isDigit = true ↔ 48 ≤ c.toNat ∧ c.toNat ≤ 57 := by
  simp only [Char.isDigit, Bool.and_eq_true, decide_eq_true_eq, ge_iff_le, UInt32.le_iff_toNat_le]
  rfl

theorem between_iff {first last c : Char} :
    between first last c = true ↔ first.toNat ≤ c.toNat ∧ c.toNat ≤ last.toNat := by
  rw [between, Bool.and_eq_true, decide_eq_true_eq, decide_eq_true_eq]
  exact and_congr UInt32.le_iff_toNat_le UInt32.le_iff_toNat_le

theorem beq_char_iff {c d : Char} : (c == d) = true ↔ c.toNat = d.toNat := by
  rw [beq_iff_eq, Char.toNat_inj]

theorem isDigit_of_isOctet (octet : isOctet text = true) : ∀ c ∈ text, c.isDigit = true := by
  match text with
  | [] => simp
  | [a] | [a, b] | [a, b, c] =>
    simp only [isOctet, Bool.or_eq_true, Bool.and_eq_true, beq_char_iff, between_iff, isDigit_iff,
      Char.reduceToNat] at octet
    simp [isDigit_iff]
    omega
  | _ :: _ :: _ :: _ :: _ => simp [isOctet] at octet

theorem isDigit_of_isIpv4Address (address : isIpv4Address text = true) :
    ∀ c ∈ text, c = '.' ∨ c.isDigit = true := by
  rw [isIpv4Address, Bool.and_eq_true, all_eq_true] at address
  exact forall_of_splitOn fun octet member => isDigit_of_isOctet (address.2 octet member)

theorem dot_mem_of_isIpv4Address (address : isIpv4Address text = true) : '.' ∈ text := by
  by_contra absent
  rw [isIpv4Address, splitOn_eq_singleton absent] at address
  simp at address

theorem isCidr_digits (cidr : isCidr text = true) :
    (∀ c ∈ text, c.isDigit = true) ∧ atoi text ≤ 32 := by
  match text with
  | [a] | [a, b] =>
    simp only [isCidr, Bool.or_eq_true, Bool.and_eq_true, beq_char_iff, between_iff, isDigit_iff,
      Char.reduceToNat] at cidr
    simp [isDigit_iff, atoi, Nat.ofDigitChars]
    omega
  | [] | _ :: _ :: _ :: _ => simp [isCidr] at cidr

/-- A prefix length is a number of at most 128, in at most three digits. -/
theorem isPrefixLength_digits (length : isPrefixLength text = true) :
    (∀ c ∈ text, c.isDigit = true) ∧ atoi text ≤ 128 ∧ text.length ≤ 3 := by
  match text with
  | [a] | [a, b] | [a, b, c] =>
    simp only [isPrefixLength, Bool.or_eq_true, Bool.and_eq_true, beq_char_iff, between_iff,
      isDigit_iff, Char.reduceToNat] at length
    simp [isDigit_iff, atoi, Nat.ofDigitChars]
    omega
  | [] | _ :: _ :: _ :: _ :: _ => simp [isPrefixLength] at length

/-- A letter or digit of a hextet. -/
def isHex (c : Char) : Bool := c.isDigit || between 'a' 'f' c || between 'A' 'F' c

theorem isHex_of_isHextet (hextet : isHextet text = true) : ∀ c ∈ text, isHex c = true := by
  rw [isHextet, Bool.and_eq_true, all_eq_true] at hextet
  exact hextet.2

theorem isHex_of_accepts {groups : Groups} (accepted : groups.accepts text = true) :
    ∀ c ∈ text, c = ':' ∨ isHex c = true := by
  have parts : ∀ piece ∈ text.splitOn ':', piece = [] ∨ isHextet piece = true := by
    have cut : ∀ piece ∈ text.splitOn ':', isHextet piece = true ∨
        piece ∈ (text.splitOn ':').dropWhile isHextet := by
      intro piece member
      rw [← (text.splitOn ':').takeWhile_append_dropWhile (p := isHextet), mem_append] at member
      exact member.imp_left mem_takeWhile_imp
    cases groups with
    | full | trailing | zero =>
      simp only [Groups.accepts, Bool.and_eq_true, all_eq_true, beq_iff_eq] at accepted
      grind
    | compressed | leading =>
      simp only [Groups.accepts] at accepted
      split at accepted
      · simp only [Bool.and_eq_true, all_eq_true] at accepted
        grind
      · cases accepted
  refine forall_of_splitOn fun piece member c inside => ?_
  rcases parts piece member with rfl | hextet
  · cases inside
  · exact isHex_of_isHextet hextet c inside

variable {strings : List Text}

/-- What an expression captures: the address, and what follows its slash. -/
theorem captures_eq_some {address mask : Text → Bool}
    (captured : captures address mask text = some strings) :
    ∃ a m, splitMask text = (a, m) ∧ address a = true ∧
      (m = none ∧ strings = [a] ∨ ∃ l, m = some l ∧ mask l = true ∧ strings = [a, l]) := by
  rw [captures] at captured
  split at captured
  · rename_i whole
    have same : (dropNewline text).takeWhile (· != '/') = dropNewline text := by
      have cut := (dropNewline text).takeWhile_append_dropWhile (p := (· != '/'))
      rwa [whole, append_nil] at cut
    split at captured
    · rename_i accepted
      cases captured
      exact ⟨_, _, rfl, by rwa [same], .inl ⟨by simp [whole], by rw [same]⟩⟩
    · cases captured
  · rename_i slash length rest
    simp only at captured
    split at captured
    · rename_i accepted
      rw [Bool.and_eq_true] at accepted
      cases captured
      exact ⟨_, _, rfl, accepted.1, .inr ⟨length, by simp [rest], accepted.2, rfl⟩⟩
    · cases captured

/-- The start that is passed over has no slash and no exclamation mark. -/
theorem dropMapped_cases (text : Text) : dropMapped text = text ∨
    ∃ start, text = start ++ dropMapped text ∧ '/' ∉ start ∧ '!' ∉ start := by
  unfold dropMapped
  split
  · rename_i a b c d rest
    split
    · rename_i letters
      refine .inr ⟨[':', ':', a, b, c, d, ':'], rfl, ?_⟩
      simp only [all_cons, all_nil, Bool.and_true, Bool.and_eq_true, Bool.or_eq_true,
        beq_iff_eq] at letters
      obtain ⟨ha, hb, hc, hd⟩ := letters
      rcases ha with rfl | rfl <;> rcases hb with rfl | rfl <;> rcases hc with rfl | rfl <;>
        rcases hd with rfl | rfl <;> decide
    · exact .inl rfl
  · exact .inl rfl

theorem dropNewline_append (start : Text) (nonempty : text ≠ []) :
    dropNewline (start ++ text) = start ++ dropNewline text := by
  rw [dropNewline, dropNewline, getLast?_append_of_ne_nil _ nonempty]
  split
  · exact dropLast_append_of_ne_nil nonempty
  · rfl

theorem mem_of_mem_dropNewline {c : Char} (member : c ∈ dropNewline text) : c ∈ text := by
  rw [dropNewline] at member
  split at member
  · exact mem_of_mem_dropLast member
  · exact member

theorem takeWhile_append_of_notMem {start : Text} (apart : '/' ∉ start) (rest : Text) :
    (start ++ rest).takeWhile (· != '/') = start ++ rest.takeWhile (· != '/') := by
  apply takeWhile_append_of_pos
  intro c member
  simp only [bne_iff_ne]
  rintro rfl
  exact apart member

theorem mem_splitMask_dropMapped {c : Char} (member : c ∈ (splitMask (dropMapped text)).1) :
    c ∈ (splitMask text).1 := by
  rcases dropMapped_cases text with same | ⟨start, whole, apart, _⟩
  · rwa [same] at member
  · by_cases nothing : dropMapped text = []
    · rw [nothing] at member
      cases member
    · rw [whole, splitMask, dropNewline_append start nothing, takeWhile_append_of_notMem apart]
      exact mem_append_right _ member

/-- A captured text has no exclamation mark, when what its parts accept has none. -/
theorem notMem_of_captures {address mask : Text → Bool}
    (addresses : ∀ a, address a = true → '!' ∉ a) (masks : ∀ m, mask m = true → '!' ∉ m)
    (captured : captures address mask text = some strings) : '!' ∉ text := by
  obtain ⟨a, m, parts, accepted, rest⟩ := captures_eq_some captured
  obtain ⟨rfl, rfl⟩ := parts
  have tail : '!' ∉ (dropNewline text).dropWhile (· != '/') := by
    cases dropped : (dropNewline text).dropWhile (· != '/') with
    | nil => simp
    | cons slash length =>
      have last := head?_dropWhile_not (· != '/') (dropNewline text)
      rw [dropped] at last rest
      simp only [head?_cons, bne_eq_false_iff_eq] at last
      subst last
      obtain ⟨none, _⟩ | ⟨l, some, accepted, _⟩ := rest
      · simp at none
      · simp only [tail?_cons, Option.some.injEq] at some
        subst some
        simpa using masks length accepted
  have inner : '!' ∉ dropNewline text := by
    rw [← (dropNewline text).takeWhile_append_dropWhile (p := (· != '/')), mem_append, not_or]
    exact ⟨addresses _ accepted, tail⟩
  intro member
  rw [dropNewline] at inner
  split at inner
  · rename_i newline
    obtain ⟨start, rfl⟩ := getLast?_eq_some_iff.mp newline
    simp only [dropLast_concat, mem_append, mem_singleton] at inner member
    rcases member with first | last
    · exact inner first
    · exact absurd last (by decide)
  · exact inner member

theorem notMem_of_isIpv4Address (address : isIpv4Address text = true) : '!' ∉ text := by
  intro member
  rcases isDigit_of_isIpv4Address address _ member with dot | digit
  · exact absurd dot (by decide)
  · exact absurd digit (by decide)

theorem notMem_of_digits (digits : ∀ c ∈ text, c.isDigit = true) : '!' ∉ text :=
  fun member => absurd (digits _ member) (by decide)

theorem notMem_of_ipv4Captures (captured : ipv4Captures text = some strings) : '!' ∉ text := by
  have rest : '!' ∉ dropMapped text := by
    apply notMem_of_captures (fun _ => notMem_of_isIpv4Address) ?_ captured
    intro mask accepted
    rcases Bool.or_eq_true_iff.mp accepted with cidr | netmask
    · exact notMem_of_digits (isCidr_digits cidr).1
    · exact notMem_of_isIpv4Address netmask
  rcases dropMapped_cases text with same | ⟨start, whole, _, apart⟩
  · rwa [same] at rest
  · rw [whole, mem_append, not_or]
    exact ⟨apart, rest⟩

theorem ipv6Captures_eq_some (captured : ipv6Captures text = some strings) :
    ∃ (groups : Groups) (mask : Text → Bool), (∀ m, mask m = true → isPrefixLength m = true) ∧
      captures groups.accepts mask text = some strings := by
  obtain ⟨groups, _, captured⟩ := exists_of_findSome?_eq_some captured
  refine ⟨groups, _, ?_, captured⟩
  intro mask accepted
  cases groups with
  | zero => cases accepted
  | full | compressed | trailing | leading => exact accepted

theorem notMem_of_ipv6Captures (captured : ipv6Captures text = some strings) : '!' ∉ text := by
  obtain ⟨groups, mask, lengths, captured⟩ := ipv6Captures_eq_some captured
  refine notMem_of_captures ?_ ?_ captured
  · intro a accepted member
    rcases isHex_of_accepts accepted _ member with colon | hex
    · exact absurd colon (by decide)
    · exact absurd hex (by decide)
  · exact fun m accepted => notMem_of_digits (isPrefixLength_digits (lengths m accepted)).1

theorem mem_of_mem_getIPv4FromIPv6 {c : Char} (member : c ∈ getIPv4FromIPv6 text) : c ∈ text := by
  rw [getIPv4FromIPv6] at member
  split at member
  · rcases dropMapped_cases text with same | ⟨start, whole, _⟩
    · rw [same] at member
      exact mem_of_mem_dropNewline member
    · rw [whole]
      exact mem_append_right _ (mem_of_mem_dropNewline member)
  · exact member

theorem head_expandIPv6_ne (pton : InetPton) (absent : '!' ∉ text) :
    (expandIPv6 pton text).head? ≠ some '!' := by
  have start : text.head? ≠ some '!' := fun head => absent (mem_of_head? head)
  have hex : ∀ n < 16, hexDigit n ≠ '!' := by decide
  have expanded (bytes : Fin 16 → BitVec 8) (rest : Text) :
      (expandedText bytes ++ rest).head? ≠ some '!' := by
    intro head
    exact hex _ (by omega) (Option.some.inj head)
  rw [expandIPv6]
  split
  · exact start
  · rename_i bytes _
    simp only
    split
    · exact start
    · split
      · simpa using expanded bytes []
      · exact expanded bytes _

end texts

section accepted

variable {pton : InetPton} {text : Text}

/-- The block that is filled for a network. -/
def Network.block : Network → List (BitVec 8)
  | .any => List.replicate 32 0
  | .v4 net mask => masked net mask.bytes
  | .v6 net mask => masked net mask.bytes

theorem readMask_cidr {n : Nat} {numeric : Text → Option (Fin n → BitVec 8)}
    (digits : ∀ c ∈ text, c.isDigit = true) :
    readMask numeric (some text) = some (.leading (atoi text)) := by
  rw [readMask, if_pos (all_eq_true.mpr digits)]

theorem readMask_netmask {numeric : Text → Option (Fin 4 → BitVec 8)}
    (address : isIpv4Address text = true) :
    readMask numeric (some text) = (numeric text).map .netmask := by
  rw [readMask, if_neg]
  intro digits
  exact absurd (all_eq_true.mp digits _ (dot_mem_of_isIpv4Address address)) (by decide)

/-- A dotted mask is longer than any CIDR. -/
theorem two_lt_length_of_isIpv4Address (address : isIpv4Address text = true) : 2 < text.length := by
  have joined : ['.'].intercalate (text.splitOn '.') = text := intercalate_splitOn '.'
  rw [isIpv4Address, Bool.and_eq_true, beq_iff_eq] at address
  match split : text.splitOn '.', address.1 with
  | [a, b, c, d], _ =>
    rw [split] at joined
    rw [← joined]
    simp [List.intercalate]
    omega

theorem length_le_two_of_isCidr (cidr : isCidr text = true) : text.length ≤ 2 := by
  match text with
  | [] | [_] | [_, _] => simp
  | _ :: _ :: _ :: _ => simp [isCidr] at cidr

variable {block : List (BitVec 8)}

/-- `0.0.0.0` is no special case. -/
theorem ipv4_of_block {a : Text} {masks : List Text}
    (filled : ipv4Block pton (a :: masks) = some block) : ∃ net, pton.ipv4 a = some net := by
  cases value : pton.ipv4 a with
  | some net => exact ⟨net, rfl⟩
  | none =>
    by_cases zero : a = "0.0.0.0".toList
    · rw [zero, pton.zero] at value
      cases value
    · simp only [ipv4Block, value, if_neg zero] at filled
      cases filled

/-- What the first expression captures is read as a network of the first family. -/
theorem ipv4_accepted (other : text ≠ "any".toList)
    (captured : ipv4Captures text = some strings) (filled : ipv4Block pton strings = some block) :
    ∃ network, readNetwork pton text = some network ∧ block = network.block := by
  obtain ⟨a, m, parts, address, rest⟩ := captures_eq_some captured
  have read : readNetwork pton text =
      (pton.ipv4 a).bind fun net => (readMask pton.ipv4 m).map (.v4 net) := by
    rw [readNetwork, if_neg other, parts]
    exact if_pos address
  obtain ⟨masks, rfl⟩ : ∃ masks, strings = a :: masks := by
    rcases rest with ⟨_, rfl⟩ | ⟨_, _, _, rfl⟩
    · exact ⟨_, rfl⟩
    · exact ⟨_, rfl⟩
  obtain ⟨net, value⟩ := ipv4_of_block filled
  simp only [ipv4Block, value, Option.bind_some, Option.map_eq_some_iff] at filled
  obtain ⟨mask, masking, rfl⟩ := filled
  suffices ∃ spec : Mask 4, readMask pton.ipv4 m = some spec ∧ mask = spec.bytes by
    obtain ⟨spec, masks, rfl⟩ := this
    exact ⟨.v4 net spec, by rw [read, value, masks]; rfl, rfl⟩
  rcases rest with ⟨rfl, only⟩ | ⟨l, rfl, accepted, both⟩
  · cases only
    cases masking
    exact ⟨.leading 32, rfl, netmask_eq le_rfl⟩
  · cases both
    rcases Bool.or_eq_true_iff.mp accepted with cidr | dotted
    · obtain ⟨digits, small⟩ := isCidr_digits cidr
      simp only [if_pos (length_le_two_of_isCidr cidr), Option.some.injEq] at masking
      exact ⟨.leading (atoi l), readMask_cidr digits, masking ▸ netmask_eq small⟩
    · have long := two_lt_length_of_isIpv4Address dotted
      simp only [if_neg (Nat.not_le.mpr long)] at masking
      exact ⟨.netmask mask, by rw [readMask_netmask dotted, masking]; rfl, rfl⟩

/-- No text between colons is one between dots. -/
theorem isIpv4Address_eq_false {groups : Groups} (accepted : groups.accepts (splitMask text).1 = true) :
    isIpv4Address (splitMask (dropMapped text)).1 = false := by
  by_contra dotted
  have dot := dot_mem_of_isIpv4Address (Bool.eq_true_of_not_eq_false dotted)
  rcases isHex_of_accepts accepted _ (mem_splitMask_dropMapped dot) with colon | hex
  · exact absurd colon (by decide)
  · exact absurd hex (by decide)

/-- What a later expression captures is read as a network of the second family. -/
theorem ipv6_accepted (other : text ≠ "any".toList)
    (captured : ipv6Captures text = some strings) (filled : ipv6Block pton strings = some block) :
    ∃ network, readNetwork pton text = some network ∧ block = network.block := by
  obtain ⟨groups, lengths, within, captured⟩ := ipv6Captures_eq_some captured
  obtain ⟨a, m, parts, address, rest⟩ := captures_eq_some captured
  have read : readNetwork pton text =
      (pton.ipv6 a).bind fun net => (readMask (fun _ => none) m).map (.v6 net) := by
    have accepted : groups.accepts (splitMask text).1 = true := by rwa [parts]
    rw [readNetwork, if_neg other, parts]
    exact if_neg (Bool.not_eq_true _ ▸ isIpv4Address_eq_false accepted)
  rcases rest with ⟨rfl, rfl⟩ | ⟨l, rfl, accepted, rfl⟩
  · simp only [ipv6Block, convertNetmask_eq le_rfl, Option.bind_eq_some_iff, Option.map_eq_some_iff,
      Option.some.injEq] at filled
    obtain ⟨net, value, mask, rfl, rfl⟩ := filled
    refine ⟨.v6 net (.leading 128), ?_, rfl⟩
    rw [read, value]
    rfl
  · obtain ⟨digits, small, short⟩ := isPrefixLength_digits (within l accepted)
    simp only [ipv6Block, if_neg (Nat.not_lt.mpr short), convertNetmask_eq small,
      Option.bind_eq_some_iff, Option.map_eq_some_iff, Option.some.injEq] at filled
    obtain ⟨net, value, mask, rfl, rfl⟩ := filled
    refine ⟨.v6 net (.leading (atoi l)), ?_, rfl⟩
    rw [read, value, readMask_cidr digits]
    rfl

theorem ofText_eq (text : Text) : Spec.ofText pton text =
    (readNetwork pton (unmark text)).map (⟨decide (text.head? = some '!'), ·⟩) := by
  unfold Spec.ofText unmark
  split
  · simp
  · rename_i unmarked
    have : text.head? ≠ some '!' := by
      intro head
      obtain ⟨rest, rfl⟩ := head?_eq_some_iff.mp head
      exact unmarked rest rfl
    simp [this]

/-- An accepted text says something, its block is the network's, and the text that is kept does not
start with the mark. -/
theorem isValidIP_eq_some {kind : Nat} {that : OsIp}
    (accepted : isValidIP pton text = some (kind, that)) :
    that.ip.head? ≠ some '!' ∧ ∃ network, that.block = network.block ∧
      Spec.ofText pton text = some ⟨decide (text.head? = some '!'), network⟩ := by
  have kept (absent : '!' ∉ unmark text) : '!' ∉ getIPv4FromIPv6 ((unmark text).take ipSize) :=
    fun member => absent (mem_of_mem_take (mem_of_mem_getIPv4FromIPv6 member))
  simp only [ofText_eq, Option.map_eq_some_iff, Spec.mk.injEq, true_and, exists_eq_right]
  simp only [isValidIP] at accepted
  split at accepted
  · rename_i any
    cases accepted
    have absent : '!' ∉ unmark text := by rw [any]; decide
    refine ⟨fun head => kept absent (mem_of_head? head), .any, rfl, ?_⟩
    rw [readNetwork, if_pos any]
  · rename_i other
    split at accepted
    · rename_i strings captured
      obtain ⟨block, filled, same⟩ := Option.map_eq_some_iff.mp accepted
      cases same
      obtain ⟨network, read, rfl⟩ := ipv4_accepted other captured filled
      have absent := notMem_of_ipv4Captures captured
      exact ⟨fun head => kept absent (mem_of_head? head), network, rfl, read⟩
    · obtain ⟨strings, captured, mapped⟩ := Option.bind_eq_some_iff.mp accepted
      obtain ⟨block, filled, same⟩ := Option.map_eq_some_iff.mp mapped
      cases same
      obtain ⟨network, read, rfl⟩ := ipv6_accepted other captured filled
      have absent := notMem_of_ipv6Captures captured
      exact ⟨head_expandIPv6_ne pton (kept absent), network, rfl, read⟩

end accepted

section found

variable {n : Nat}

theorem getD_masked_net (net mask : Fin n → BitVec 8) (i : Fin n) (d : BitVec 8) :
    (masked net mask).getD i d = net i &&& mask i := by
  rw [masked, getD_append _ _ _ _ (by simp)]
  simp

theorem getD_masked_mask (net mask : Fin n → BitVec 8) (i : Fin n) (d : BitVec 8) :
    (masked net mask).getD (n + i) d = mask i := by
  rw [masked, getD_append_right _ _ _ _ (by simp)]
  simp

theorem Mask.agree_iff (mask : Mask n) (a b : Fin n → BitVec 8) :
    mask.Agree a b ↔ EqualUnder mask.bytes a b := by
  cases mask with
  | leading bits => exact (equalUnder_prefixMask_iff ..).symm
  | netmask bytes => exact Iff.rfl

/-- Within the family the comparison is the mask's. -/
theorem covers_masked (mask : Mask n) (net source : Fin n → BitVec 8) (heap : Nat → BitVec 8) :
    (∀ i : Fin n, source i &&& (masked net mask.bytes).getD (n + i) (heap (n + i)) =
      (masked net mask.bytes).getD i (heap i)) ↔ mask.Agree source net := by
  rw [Mask.agree_iff]
  apply forall_congr'
  intro i
  rw [getD_masked_net, getD_masked_mask]

theorem covers_iff {that : OsIp} {network : Network} (block : that.block = network.block)
    (heap : Nat → BitVec 8) (source : Address) : that.covers heap source = true ↔
      if network.foreign source then Coincides heap network source else network.Contains source := by
  cases network with
  | any =>
    have zero : ∀ offset < 32, that.read heap offset = 0 := by
      intro offset inside
      rw [OsIp.read, block, Network.block, getD_replicate _ inside]
    have covers : that.covers heap source = true := by
      cases source with
      | v4 source | v6 source =>
        rw [OsIp.covers, decide_eq_true_iff]
        intro i
        rw [zero _ (by omega), zero _ (by omega)]
        exact BitVec.and_zero
    simp [covers, Network.foreign, Network.Contains]
  | v4 net mask | v6 net mask =>
    cases source with
    | v4 source | v6 source =>
      rw [OsIp.covers, decide_eq_true_iff]
      simp only [OsIp.read, block, Network.block]
      first
      | exact covers_masked mask net source heap
      | exact Iff.rfl

/-- No network contains an address of the other family. -/
theorem not_contains_of_foreign {network : Network} {source : Address}
    (foreign : network.foreign source = true) : ¬network.Contains source := by
  cases network <;> cases source
  case v4.v6 => exact id
  case v6.v4 => exact id
  all_goals cases foreign

end found

variable {pton : InetPton} {text address : Text} {kind : Nat} {that : OsIp} {source : Address}

/-- Four decimal numbers. -/
def dotted (text : Text) : Option (Fin 4 → BitVec 8) :=
  if isIpv4Address text then some fun i => .ofNat 8 (atoi ((text.splitOn '.').getD i [])) else none

def hexValue (text : Text) : Nat :=
  text.foldl (fun n c => 16 * n + ("0123456789abcdef".toList.idxOf c.toLower)) 0

/-- The groups on either side of the empty ones, with zeros between them. -/
def colons (text : Text) : Option (Fin 16 → BitVec 8) :=
  let pieces := text.splitOn ':'
  let head := pieces.takeWhile isHextet
  let tail := if head.length = 8 then [] else (pieces.reverse.takeWhile isHextet).reverse
  let groups := head ++ List.replicate (8 - head.length - tail.length) [] ++ tail
  if ipv6Groups.any (·.accepts text) then
    some fun i => .ofNat 8 (hexValue (groups.getD (i / 2) []) / if (i : Nat) % 2 = 0 then 256 else 1)
  else none

/-- `inet_pton` without dotted quads in the second family. -/
def InetPton.standard : InetPton where
  ipv4 := dotted
  ipv6 := colons
  zero := by decide

theorem dotted_address (accepted : isIpv4Address text = true) : InetPton.standard.address text =
    some (.v4 fun i => .ofNat 8 (atoi ((text.splitOn '.').getD i []))) := by
  simp [InetPton.address, InetPton.standard, dotted, accepted]

end GuardSarm.Remote
