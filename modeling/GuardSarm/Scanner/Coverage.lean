import GuardSarm.Scanner.PackageScanner

/-!
# Which versions a candidate covers

An entry of a candidate covers an installed version when it names it or when
the version lies in its range (`Version.Covers`); `*` is not a version, so a
range with no other upper bound covers nothing. An entry is incomparable when
a bound that it is judged by cannot be compared with the installed version.
-/

namespace GuardSarm

open PackageScanner VersionMatcher

def ScanVulnerabilityCandidate.entries (candidate : ScanVulnerabilityCandidate) :
    List (Option Version) := candidate.versions.getD []

namespace Version

def lower (version : Version) : Text := version.version.getD []

def below (version : Version) : Text := version.lessThan.getD []

def atMost (version : Version) : Text := version.lessThanOrEqual.getD []

/-- The entry names a version and no range. -/
def Exact (version : Version) : Prop := version.below = [] ∧ version.atMost = []

def Unbounded (version : Version) : Prop := version.lower = "0".toList ∨ version.lower = []

def Strict (version : Version) : Prop := version.below ≠ [] ∧ version.below ≠ "*".toList

instance (version : Version) : Decidable version.Exact := inferInstanceAs (Decidable (_ ∧ _))

instance (version : Version) : Decidable version.Unbounded := inferInstanceAs (Decidable (_ ∨ _))

instance (version : Version) : Decidable version.Strict := inferInstanceAs (Decidable (_ ∧ _))

variable (compare : Comparison) (version : Version)

def FromLower : Prop :=
  version.Unbounded ∨ compare version.lower = .ok .aGreaterThanB ∨
    compare version.lower = .ok .aEqualB

def UpToUpper : Prop :=
  if version.Strict then compare version.below = .ok .aLessThanB
  else version.atMost ≠ [] ∧
    (compare version.atMost = .ok .aLessThanB ∨ compare version.atMost = .ok .aEqualB)

/-- The installed version is the one the entry names, or lies in its range. -/
def Covers : Prop :=
  if version.Exact then compare version.lower = .ok .aEqualB
  else version.FromLower compare ∧ version.UpToUpper compare

/-- A bound that decides about the entry cannot be compared with the installed version. The upper
bound decides only for a version that reaches the lower one. -/
def Incomparable : Prop :=
  if version.Exact then ∃ e, compare version.lower = .error e
  else (¬version.Unbounded ∧ ∃ e, compare version.lower = .error e) ∨ version.FromLower compare ∧
      if version.Strict then ∃ e, compare version.below = .error e
      else version.atMost ≠ [] ∧ ∃ e, compare version.atMost = .error e

def bounds : List Text :=
  if version.Exact then [version.lower]
  else (if version.Unbounded then [] else [version.lower]) ++
    if version.Strict then [version.below]
    else if version.atMost = [] then [] else [version.atMost]

variable {compare version}

theorem not_incomparable
    (comparable : ∀ bound ∈ version.bounds, ∃ result, compare bound = .ok result) :
    ¬version.Incomparable compare := by
  have noError {bound : Text} (member : bound ∈ version.bounds) : ¬∃ e, compare bound = .error e := by
    rintro ⟨e, raised⟩
    obtain ⟨result, returned⟩ := comparable bound member
    rw [raised] at returned
    cases returned
  unfold Incomparable
  split
  · rename_i exact
    exact noError (by simp [bounds, exact])
  · rename_i range
    rintro (⟨bounded, raised⟩ | ⟨-, raised⟩)
    · exact noError (by simp [bounds, range, bounded]) raised
    · split at raised
      · rename_i strict
        exact noError (by simp [bounds, range, strict]) raised
      · rename_i weak
        exact noError (by simp [bounds, range, weak, raised.1]) raised.2

end Version

namespace ScanVulnerabilityCandidate

variable (compare : Comparison) (candidate : ScanVulnerabilityCandidate)

/-- Some entry covers the installed version. -/
def Lists : Prop := ∃ version, some version ∈ candidate.entries ∧ version.Covers compare

/-- Some affected entry covers the installed version. -/
def ListsAffected : Prop :=
  ∃ version, some version ∈ candidate.entries ∧ version.status = .affected ∧ version.Covers compare

def ListsIncomparable : Prop :=
  ∃ version, some version ∈ candidate.entries ∧ version.Incomparable compare

/-- What the candidate means for the installed version: the entries that cover it decide, and the
default status where there are none. -/
def Affects : Prop :=
  candidate.ListsAffected compare ∨ ¬candidate.Lists compare ∧ candidate.defaultStatus = .affected

end ScanVulnerabilityCandidate

namespace PackageScanner

open Search

variable {compare : Comparison} {version : Version}

theorem lowerBound_unbounded (unbounded : version.Unbounded) :
    lowerBound compare version.lower = .ok true :=
  if_pos unbounded

theorem lowerBound_bounded (bounded : ¬version.Unbounded) :
    lowerBound compare version.lower = do
      let result ← compare version.lower
      return result = .aGreaterThanB ∨ result = .aEqualB :=
  if_neg bounded

theorem upperBound_strict (strict : version.Strict) :
    upperBound compare version.below version.atMost = do
      let result ← compare version.below
      return if result = .aLessThanB then some (.lessThan, version.below) else none :=
  if_pos strict

theorem upperBound_weak (weak : ¬version.Strict) (bounded : version.atMost ≠ []) :
    upperBound compare version.below version.atMost = do
      let result ← compare version.atMost
      return if result = .aLessThanB ∨ result = .aEqualB then
        some (.lessThanOrEqual, version.atMost) else none :=
  (if_neg weak).trans (if_pos bounded)

theorem upperBound_free (weak : ¬version.Strict) (free : ¬version.atMost ≠ []) :
    upperBound compare version.below version.atMost = .ok none :=
  (if_neg weak).trans (if_neg free)

theorem lowerBound_true_iff :
    lowerBound compare version.lower = .ok true ↔ version.FromLower compare := by
  by_cases bounded : version.Unbounded
  · simp [lowerBound_unbounded bounded, Version.FromLower, bounded]
  · rw [lowerBound_bounded bounded, bind_ok_iff]
    simp [Version.FromLower, bounded, and_or_left, exists_or]

theorem lowerBound_raises_iff : (∃ e, lowerBound compare version.lower = .error e) ↔
    ¬version.Unbounded ∧ ∃ e, compare version.lower = .error e := by
  by_cases bounded : version.Unbounded
  · simp [lowerBound_unbounded bounded, bounded]
  · rw [lowerBound_bounded bounded, bind_raises_iff]
    simp [bounded]

theorem upperBound_some_iff :
    (∃ rule, upperBound compare version.below version.atMost = .ok (some rule)) ↔
      version.UpToUpper compare := by
  unfold Version.UpToUpper
  split
  · rename_i strict
    simp [upperBound_strict strict, bind_ok_iff, -bind_pure_comp]
  · rename_i weak
    by_cases bounded : version.atMost ≠ []
    · simp [upperBound_weak weak bounded, bind_ok_iff, -bind_pure_comp, bounded, and_or_left,
        exists_or]
    · simp [upperBound_free weak bounded, bounded]

theorem upperBound_raises_iff : (∃ e, upperBound compare version.below version.atMost = .error e) ↔
      if version.Strict then ∃ e, compare version.below = .error e
      else version.atMost ≠ [] ∧ ∃ e, compare version.atMost = .error e := by
  split
  · rename_i strict
    rw [upperBound_strict strict, bind_raises_iff]
    simp
  · rename_i weak
    by_cases bounded : version.atMost ≠ []
    · rw [upperBound_weak weak bounded, bind_raises_iff]
      simp [bounded]
    · simp [upperBound_free weak bounded, bounded]

theorem matchEntry_exact (exact : version.Exact) :
    matchEntry compare (some version) = do
      let result ← compare version.lower
      return if result = .aEqualB ∧ version.status = .affected then some (.equal, version.lower)
        else none :=
  if_pos exact

theorem matchEntry_range (range : ¬version.Exact) :
    matchEntry compare (some version) = do
      if ← lowerBound compare version.lower then
        let matched ← upperBound compare version.below version.atMost
        return if version.status = .affected then matched else none
      else return none :=
  if_neg range

/-- An entry ends the loop with a match when it covers the version and is affected. -/
theorem decides_iff : Decides (matchEntry compare) (some version) ↔
    version.status = .affected ∧ version.Covers compare := by
  unfold Decides Version.Covers
  split
  · rename_i exact
    simp [matchEntry_exact exact, bind_ok_iff, -bind_pure_comp, and_comm]
  · rename_i range
    rw [matchEntry_range range, ← lowerBound_true_iff, ← upperBound_some_iff]
    by_cases affected : version.status = .affected
    · simp [bind_ok_iff, affected]
    · simp [bind_ok_iff, -bind_pure_comp, affected]

/-- An entry ends the loop with an exception when it is incomparable. -/
theorem raises_iff : Raises (matchEntry compare) (some version) ↔ version.Incomparable compare := by
  unfold Raises Version.Incomparable
  split
  · rename_i exact
    rw [matchEntry_exact exact, bind_raises_iff]
    simp
  · rename_i range
    rw [matchEntry_range range, bind_raises_iff, lowerBound_raises_iff, ← lowerBound_true_iff,
      ← upperBound_raises_iff]
    simp [bind_raises_iff, -bind_pure_comp]

section candidate

variable {classes : VersionClasses} {package : PackageData} {candidate : ScanVulnerabilityCandidate}

/-- The comparisons of `versionMatch`, as the overload for two strings makes them. -/
def installed (classes : VersionClasses) (package : PackageData) : Comparison := fun bound =>
  VersionMatcher.compare classes package.version bound (getVersionObjectType package.format)

variable {object : Option (VersionObject classes)}

theorem versionMatch_of_created
    (created : createVersionObject classes package.version (getVersionObjectType package.format) =
      .ok object) :
    versionMatch classes package candidate = do
      match ← candidate.entries.findSomeM? (matchEntry (installed classes package)) with
      | some matched => return some matched
      | none => return matchDefault candidate := by
  have same : installed classes package = fun bound =>
      compareObject classes object package.version bound (getVersionObjectType package.format) :=
    funext fun bound => compare_of_created created bound
  rw [same, versionMatch, ScanVulnerabilityCandidate.entries]
  simp only [created]
  rcases candidate.versions with _ | _ | ⟨version, versions⟩
  · rfl
  · rfl
  · rfl

theorem reportsVulnerable_of_created
    (created : createVersionObject classes package.version (getVersionObjectType package.format) =
      .ok object) : reportsVulnerable classes package candidate =
      answer (candidate.defaultStatus = .affected)
        (candidate.entries.findSomeM? (matchEntry (installed classes package))) := by
  rw [reportsVulnerable, versionMatch_of_created created]
  rcases candidate.entries.findSomeM? (matchEntry (installed classes package)) with e | _ | matched
  · rfl
  · by_cases affected : candidate.defaultStatus = .affected
    · simp [bind, Except.bind, pure, Except.pure, matchDefault, answer, affected]
    · simp [bind, Except.bind, pure, Except.pure, matchDefault, answer, affected]
  · rfl

theorem reportsVulnerable_of_raised {e : VersionError}
    (raised : createVersionObject classes package.version (getVersionObjectType package.format) =
      .error e) : reportsVulnerable classes package candidate = false := by
  rw [reportsVulnerable, versionMatch]
  simp only [raised]
  rfl

theorem exists_decides_iff {compare : Comparison} :
    (∃ entry ∈ candidate.entries, Decides (matchEntry compare) entry) ↔
      candidate.ListsAffected compare := by
  constructor
  · rintro ⟨_ | version, member, decides⟩
    · obtain ⟨rule, found⟩ := decides
      cases found
    · exact ⟨version, member, decides_iff.mp decides⟩
  · rintro ⟨version, member, affected⟩
    exact ⟨some version, member, decides_iff.mpr affected⟩

theorem exists_raises_iff {compare : Comparison} :
    (∃ entry ∈ candidate.entries, Raises (matchEntry compare) entry) ↔
      candidate.ListsIncomparable compare := by
  constructor
  · rintro ⟨_ | version, member, raises⟩
    · obtain ⟨e, raised⟩ := raises
      cases raised
    · exact ⟨version, member, raises_iff.mp raises⟩
  · rintro ⟨version, member, incomparable⟩
    exact ⟨some version, member, raises_iff.mpr incomparable⟩

/-- A version that cannot be compared with anything is covered by nothing. -/
theorem not_lists_of_raised {e : VersionError}
    (raised : createVersionObject classes package.version (getVersionObjectType package.format) =
      .error e) : ¬candidate.Lists (installed classes package) := by
  rintro ⟨version, -, covers⟩
  have never (bound : Text) (result : VersionComparisonResult) :
      installed classes package bound ≠ .ok result := by
    rw [installed, compare_of_raised raised]
    nofun
  unfold Version.Covers Version.UpToUpper at covers
  split at covers
  · exact never _ _ covers
  · obtain ⟨-, upper⟩ := covers
    split at upper
    · exact never _ _ upper
    · exact upper.2.elim (never _ _) (never _ _)

theorem reportsVulnerable_iff
    (created : createVersionObject classes package.version (getVersionObjectType package.format) =
      .ok object) (comparable : ¬candidate.ListsIncomparable (installed classes package)) :
    reportsVulnerable classes package candidate = true ↔
      candidate.ListsAffected (installed classes package) ∨ candidate.defaultStatus = .affected := by
  rw [reportsVulnerable_of_created created]
  rw [← exists_raises_iff] at comparable
  push Not at comparable
  by_cases lists : candidate.ListsAffected (installed classes package)
  · simp only [lists, true_or, iff_true]
    exact answer_of_decides (exists_decides_iff.mpr lists) comparable
  · have passes : ∀ entry ∈ candidate.entries,
        Passes (matchEntry (installed classes package)) entry := by
      intro entry member
      rcases passes_or_decides_or_raises (matchEntry (installed classes package)) entry with
        passes | decides | raises
      · exact passes
      · exact absurd (exists_decides_iff.mp ⟨entry, member, decides⟩) lists
      · exact absurd raises (comparable entry member)
    rw [answer_of_passes passes]
    simp [lists]

/-- **The default status is for unlisted versions** as long as it does not overrule an entry: with
every bound comparable, `versionMatch` reports the package exactly when the candidate affects it,
provided that a candidate affected by default has an affected entry for the version, or none at
all and a version that can be read. -/
theorem vulnerable_iff_affects
    (comparable : ∀ version, some version ∈ candidate.entries → ∀ bound ∈ version.bounds,
      ∃ result, installed classes package bound = .ok result) :
    (reportsVulnerable classes package candidate = true ↔
        candidate.Affects (installed classes package)) ↔ (candidate.defaultStatus = .affected →
        candidate.ListsAffected (installed classes package) ∨
          ¬candidate.Lists (installed classes package) ∧
            ∃ object, createVersionObject classes package.version
              (getVersionObjectType package.format) = .ok object) := by
  have listed : candidate.ListsAffected (installed classes package) →
      candidate.Lists (installed classes package) := fun ⟨version, member, _, covers⟩ =>
    ⟨version, member, covers⟩
  unfold ScanVulnerabilityCandidate.Affects
  cases created :
    createVersionObject classes package.version (getVersionObjectType package.format) with
  | error e =>
    have unlisted : ¬candidate.Lists (installed classes package) := not_lists_of_raised created
    simp only [reportsVulnerable_of_raised created, unlisted, mt listed unlisted]
    simp
  | ok object =>
    have none_incomparable : ¬candidate.ListsIncomparable (installed classes package) :=
      fun ⟨version, member, incomparable⟩ =>
        Version.not_incomparable (comparable version member) incomparable
    rw [reportsVulnerable_iff created none_incomparable]
    simp only [Except.ok.injEq, exists_eq', and_true]
    tauto

/-- **The order of the entries is irrelevant** exactly when the candidate does not hold both an
affected entry for the installed version and an incomparable one. -/
theorem vulnerable_perm_iff :
    (∀ versions : List (Option Version), versions.Perm candidate.entries →
      reportsVulnerable classes package { candidate with versions := some versions } =
        reportsVulnerable classes package candidate) ↔
      ¬(candidate.ListsAffected (installed classes package) ∧
        candidate.ListsIncomparable (installed classes package)) := by
  cases created :
    createVersionObject classes package.version (getVersionObjectType package.format) with
  | error e =>
    simp only [reportsVulnerable_of_raised created, implies_true, true_iff]
    rintro ⟨⟨version, member, -, covers⟩, -⟩
    exact not_lists_of_raised created ⟨version, member, covers⟩
  | ok object =>
    have reports (versions : List (Option Version)) :
        reportsVulnerable classes package { candidate with versions := some versions } =
          answer (candidate.defaultStatus = .affected)
            (versions.findSomeM? (matchEntry (installed classes package))) :=
      reportsVulnerable_of_created created
    simp only [reports]
    rw [reportsVulnerable_of_created created, ← exists_decides_iff, ← exists_raises_iff]
    exact answer_perm_iff

end candidate

section counterexamples

/-- A Debian package of version 1.5. -/
def samplePackage : PackageData := ⟨"openssl".toList, [], "deb".toList, "1.5".toList⟩

/-- A candidate without restrictions on platform and vendor. -/
def sampleCandidate (defaultStatus : Status) (versions : List Version) :
    ScanVulnerabilityCandidate :=
  ⟨"CVE-2024-0001".toList, defaultStatus, none, some (versions.map some), none⟩

/-- All versions below 2.0. -/
def belowTwo (status : Status) : Version := ⟨status, some "0".toList, some "2.0".toList, none⟩

/-- A version that Debian's syntax does not have. -/
def unreadable : Version := ⟨.affected, some "2.0 beta".toList, none, none⟩

theorem covers_belowTwo (status : Status) :
    (belowTwo status).Covers (installed .deb samplePackage) :=
  ⟨.inl (.inl rfl), show installed .deb samplePackage "2.0".toList = .ok .aLessThanB by
    decide +kernel⟩

theorem bounds_belowTwo (status : Status) : (belowTwo status).bounds = ["2.0".toList] := rfl

theorem eq_belowTwo {defaultStatus status : Status} {version : Version}
    (member : some version ∈ (sampleCandidate defaultStatus [belowTwo status]).entries) :
    version = belowTwo status :=
  Option.some.inj (List.mem_singleton.mp member)

theorem vulnerable_iff_affects_belowTwo :
    reportsVulnerable .deb samplePackage (sampleCandidate .unaffected [belowTwo .affected]) = true ↔
      (sampleCandidate .unaffected [belowTwo .affected]).Affects (installed .deb samplePackage) := by
  refine (vulnerable_iff_affects ?_).mpr nofun
  intro version member bound bounded
  rw [eq_belowTwo member, bounds_belowTwo, List.mem_singleton] at bounded
  subst bounded
  exact ⟨.aLessThanB, by decide +kernel⟩

/-- The installed version is listed as unaffected, and reported all the same. -/
theorem unaffected_reported :
    reportsVulnerable .deb samplePackage (sampleCandidate .affected [belowTwo .unaffected]) = true ∧
      ¬(sampleCandidate .affected [belowTwo .unaffected]).Affects (installed .deb samplePackage) := by
  refine ⟨by decide +kernel, ?_⟩
  rintro (⟨version, member, affected, -⟩ | ⟨unlisted, -⟩)
  · rw [eq_belowTwo member] at affected
    cases affected
  · exact unlisted ⟨belowTwo .unaffected, List.mem_singleton_self _, covers_belowTwo .unaffected⟩

/-- An entry that cannot be read hides the entries behind it. -/
theorem order_decides : reportsVulnerable .deb samplePackage
        (sampleCandidate .unaffected [belowTwo .affected, unreadable]) = true ∧
      reportsVulnerable .deb samplePackage
        (sampleCandidate .unaffected [unreadable, belowTwo .affected]) = false := by
  decide +kernel

end counterexamples

end PackageScanner

end GuardSarm
