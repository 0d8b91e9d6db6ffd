import GuardSarm.Lib.Text

/-!
# Comparing version strings

`VersionMatcher` reads a version string as an object of one of six types,
either of a given type or of the first type that a strategy accepts, and
compares two objects of one type. What a type accepts and how it orders its
objects is its own (`VersionClass`); reading may raise.
-/

namespace GuardSarm

/-- The standard exceptions that comparing versions meets. -/
inductive VersionError where
  | invalidArgument (what : Text)
  | outOfRange (what : Text)
  deriving DecidableEq

inductive VersionObjectType where
  | calVer | pep440 | majorMinor | semVer | dpkg | rpm
  deriving DecidableEq

inductive VersionMatcherStrategy where
  | unspecified | windows | macOS | pacman | snap | pkg | apk
  deriving DecidableEq

inductive VersionComparisonResult where
  | aLessThanB | aEqualB | aGreaterThanB
  deriving DecidableEq

/-- An implementation of `IVersionObject` with its static `match`. -/
structure VersionClass where
  Object : Type
  matchVersion : Text → Except VersionError (Option Object)
  equal : Object → Object → Bool
  less : Object → Object → Bool

abbrev VersionClasses := VersionObjectType → VersionClass

/-- `IVersionObject`, with `getType`. -/
structure VersionObject (classes : VersionClasses) where
  getType : VersionObjectType
  object : (classes getType).Object

namespace VersionMatcher

variable (classes : VersionClasses)

/-- `std::variant<VersionObjectType, VersionMatcherStrategy>`. -/
abbrev Reading := VersionObjectType ⊕ VersionMatcherStrategy

def createOfType (version : Text) (type : VersionObjectType) :
    Except VersionError (Option (VersionObject classes)) := do
  let object ← (classes type).matchVersion version
  return object.map (⟨type, ·⟩)

/-- The types that the strategy `Unspecified` tries, in order. -/
def unspecifiedOrder : List VersionObjectType :=
  [.calVer, .pep440, .majorMinor, .semVer, .dpkg, .rpm]

def createOfStrategy (version : Text) :
    VersionMatcherStrategy → Except VersionError (Option (VersionObject classes))
  | .windows | .macOS | .pkg | .pacman | .snap => createOfType classes version .dpkg
  | .apk | .unspecified => unspecifiedOrder.findSomeM? (createOfType classes version)

def createVersionObject (version : Text) :
    Reading → Except VersionError (Option (VersionObject classes))
  | .inl type => createOfType classes version type
  | .inr strategy => createOfStrategy classes version strategy

def unableToCompare (versionA versionB : Text) : VersionError :=
  .invalidArgument ("Unable to compare versions (".toList ++ versionA ++ " vs ".toList ++ versionB ++
    ").".toList)

/-- The comparison of two objects, which have to be of one type. -/
def compareObjects {classes : VersionClasses} (a b : VersionObject classes) :
    Option VersionComparisonResult :=
  if same : a.getType = b.getType then
    let object : (classes b.getType).Object := same ▸ a.object
    if (classes b.getType).equal object b.object then some .aEqualB
    else if (classes b.getType).less object b.object then some .aLessThanB
    else some .aGreaterThanB
  else none

/-- The overload of `compare` for an object already read, which is null for a version that its type
does not accept. -/
def compareObject (versionObjectA : Option (VersionObject classes)) (versionA versionB : Text)
    (type : Reading) : Except VersionError VersionComparisonResult :=
  match versionObjectA with
  | none => throw (unableToCompare versionA versionB)
  | some a => do
    match ← createVersionObject classes versionB type with
    | none => throw (unableToCompare versionA versionB)
    | some b =>
      match compareObjects a b with
      | some result => return result
      | none => throw (unableToCompare versionA versionB)

/-- The overload of `compare` for two strings. -/
def compare (versionA versionB : Text) (type : Reading) :
    Except VersionError VersionComparisonResult := do
  compareObject classes (← createVersionObject classes versionA type) versionA versionB type

variable {classes}

theorem compare_of_created {versionA : Text} {type : Reading}
    {object : Option (VersionObject classes)}
    (created : createVersionObject classes versionA type = .ok object) (versionB : Text) :
    compare classes versionA versionB type =
      compareObject classes object versionA versionB type := by
  rw [compare, created]
  rfl

theorem compare_of_raised {versionA : Text} {type : Reading} {e : VersionError}
    (raised : createVersionObject classes versionA type = .error e) (versionB : Text) :
    compare classes versionA versionB type = .error e := by
  rw [compare, raised]
  rfl

/-- Two strings that one type accepts are compared by its operators. -/
theorem compare_accepted {versionA versionB : Text} {type : VersionObjectType}
    {a b : (classes type).Object} (acceptedA : (classes type).matchVersion versionA = .ok (some a))
    (acceptedB : (classes type).matchVersion versionB = .ok (some b)) :
    compare classes versionA versionB (.inl type) = .ok (if (classes type).equal a b then .aEqualB
        else if (classes type).less a b then .aLessThanB else .aGreaterThanB) := by
  have createdA : createVersionObject classes versionA (.inl type) = .ok (some ⟨type, a⟩) := by
    rw [createVersionObject, createOfType, acceptedA]
    rfl
  have createdB : createVersionObject classes versionB (.inl type) = .ok (some ⟨type, b⟩) := by
    rw [createVersionObject, createOfType, acceptedB]
    rfl
  have compared : compareObjects (⟨type, a⟩ : VersionObject classes) ⟨type, b⟩ =
      some (if (classes type).equal a b then .aEqualB
        else if (classes type).less a b then .aLessThanB else .aGreaterThanB) := by
    simp only [compareObjects, dif_pos]
    split_ifs <;> rfl
  rw [compare_of_created createdA, compareObject, createdB]
  simp only [bind, Except.bind, compared]
  rfl

end VersionMatcher

/-- The result that stands for an ordering. -/
def VersionComparisonResult.ofOrdering : Ordering → VersionComparisonResult
  | .lt => .aLessThanB
  | .eq => .aEqualB
  | .gt => .aGreaterThanB

theorem VersionComparisonResult.ofOrdering_inj {a b : Ordering} :
    ofOrdering a = ofOrdering b ↔ a = b := by
  cases a <;> cases b <;> decide

end GuardSarm
