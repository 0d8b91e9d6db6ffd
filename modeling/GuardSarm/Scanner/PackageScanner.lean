import GuardSarm.Lib.Search
import GuardSarm.Lib.Table
import GuardSarm.Scanner.Dpkg

/-!
# The package scanner

The version of a package is checked against the version entries of one vulnerability
candidate of the feed (`versionMatch`); `packageScan` takes every exception on the
way for no detection.
-/

namespace GuardSarm

inductive Status where
  | affected | unaffected | unknown
  deriving DecidableEq

/-- An entry of a candidate's version list. -/
structure Version where
  status : Status
  version : Option Text
  lessThan : Option Text
  lessThanOrEqual : Option Text
  deriving DecidableEq

structure ScanVulnerabilityCandidate where
  cveId : Text
  defaultStatus : Status
  platforms : Option (List (Option Text))
  versions : Option (List (Option Version))
  vendor : Option Text

structure PackageData where
  name : Text
  vendor : Text
  format : Text
  version : Text

/-- The conditions that a scan of packages reports. -/
inductive MatchRuleCondition where
  | equal | lessThan | lessThanOrEqual | defaultStatus
  deriving DecidableEq

abbrev MatchedRule := MatchRuleCondition × Text

namespace PackageScanner

def packageFormatMap : List (Text × VersionMatcher.Reading) :=
  [("deb".toList, .inl .dpkg), ("rpm".toList, .inl .rpm), ("pypi".toList, .inl .pep440),
    ("npm".toList, .inl .semVer), ("pacman".toList, .inr .pacman), ("snap".toList, .inr .snap),
    ("pkg".toList, .inr .pkg), ("apk".toList, .inr .apk), ("win".toList, .inr .windows),
    ("macports".toList, .inr .macOS)]

def getVersionObjectType (format : Text) : VersionMatcher.Reading :=
  ((packageFormatMap.find? fun entry => entry.1 = format).map (·.2)).getD (.inr .unspecified)

section versionMatch

/-- The comparison of the installed version with a bound. -/
abbrev Comparison := Text → Except VersionError VersionComparisonResult

def lowerBound (compare : Comparison) (versionString : Text) : Except VersionError Bool :=
  if versionString = "0".toList ∨ versionString = [] then return true
  else do
    let result ← compare versionString
    return result = .aGreaterThanB ∨ result = .aEqualB

/-- The upper bound that the version satisfies, if it does. -/
def upperBound (compare : Comparison) (lessThan lessThanOrEqual : Text) :
    Except VersionError (Option MatchedRule) :=
  if lessThan ≠ [] ∧ lessThan ≠ "*".toList then do
    let result ← compare lessThan
    return if result = .aLessThanB then some (.lessThan, lessThan) else none
  else if lessThanOrEqual ≠ [] then do
    let result ← compare lessThanOrEqual
    return if result = .aLessThanB ∨ result = .aEqualB then some (.lessThanOrEqual, lessThanOrEqual)
      else none
  else return none

/-- One pass of the loop of `versionMatch`: the rule that ends it, if the entry has one. -/
def matchEntry (compare : Comparison) : Option Version → Except VersionError (Option MatchedRule)
  | none => return none
  | some version =>
    let versionString := version.version.getD []
    let lessThan := version.lessThan.getD []
    let lessThanOrEqual := version.lessThanOrEqual.getD []
    if lessThan = [] ∧ lessThanOrEqual = [] then do
      let result ← compare versionString
      return if result = .aEqualB ∧ version.status = .affected then some (.equal, versionString)
        else none
    else do
      if ← lowerBound compare versionString then
        let matched ← upperBound compare lessThan lessThanOrEqual
        return if version.status = .affected then matched else none
      else return none

def matchDefault (candidate : ScanVulnerabilityCandidate) : Option MatchedRule :=
  if candidate.defaultStatus = .affected then some (.defaultStatus, []) else none

/-- `versionMatch`: the matched condition and its value, none where it returns false. -/
def versionMatch (classes : VersionClasses) (package : PackageData)
    (candidate : ScanVulnerabilityCandidate) : Except VersionError (Option MatchedRule) := do
  let objectType := getVersionObjectType package.format
  let packageVersionObject ← VersionMatcher.createVersionObject classes package.version objectType
  match candidate.versions with
  | none => return matchDefault candidate
  | some [] => return matchDefault candidate
  | some versions =>
    let compare := fun bound =>
      VersionMatcher.compareObject classes packageVersionObject package.version bound objectType
    match ← versions.findSomeM? (matchEntry compare) with
    | some matched => return some matched
    | none => return matchDefault candidate

end versionMatch

end PackageScanner

namespace PackageScanner

/-- Whether `versionMatch` returns true, as `packageScan` sees it. -/
def reportsVulnerable (classes : VersionClasses) (pkg : PackageData)
    (candidate : ScanVulnerabilityCandidate) : Bool :=
  match versionMatch classes pkg candidate with
  | .ok (some _) => true
  | _ => false

end PackageScanner

end GuardSarm
