import SuiteHarness.Identifier

/-!
# Product and bundle declarations

A product names the bundles it is composed of. Versions and ranges follow PEP 440, whose tests are given: a version is
its canonical text.
-/

set_option autoImplicit false

namespace SuiteHarness.Runtime

/-- The library tests the declarations rest on: `str(Version(text))`, the
constructor of `SpecifierSet` and `version in SpecifierSet(specifier)`. -/
structure Packaging where
  parse : String → Option String
  isSpecifier : String → Bool
  contains (specifier version : String) : Bool

def separatedTail (separators : List Char) : Bool → List Char → Bool
  | separated, [] => !separated
  | separated, c::cs =>
    if c.isLower || c.isDigit then separatedTail separators false cs
    else !separated && separators.contains c && separatedTail separators true cs

def isSeparated (separators : List Char) (s : String) : Bool :=
  match s.toList with
  | [] => false
  | c::cs => c.isLower && separatedTail separators false cs

def isComponentId : String → Bool := isSeparated ['.','_','-']

def isVersion (pkg : Packaging) (value : String) : Bool :=
  decide (strip value = value) && decide (value ≠ "") && decide (pkg.parse value = some value)

def isRange (pkg : Packaging) (allowEmpty : Bool) (value : String) : Bool :=
  decide (strip value = value) && (decide (value ≠ "") || allowEmpty) && pkg.isSpecifier value

structure BundleRequirement where
  bundleId : String
  version : String := ""
  optional : Bool := false
  deriving DecidableEq

def BundleRequirement.valid (pkg : Packaging) (r : BundleRequirement) : Bool :=
  isComponentId r.bundleId && isRange pkg true r.version

structure ProductDescriptor (χ : Type) where
  productId : String
  version : String
  harnessApi : String
  bundles : List BundleRequirement := []
  capabilities : Finset String := ∅
  configModel : χ
  deriving DecidableEq

inductive HarnessVersion where
  | text (value : String)
  | version (value : String)

def HarnessVersion.parsed (pkg : Packaging) : HarnessVersion → Except String String
  | .version v => .ok v
  | .text s => match pkg.parse s with
    | some v => .ok v
    | none => .error s

variable {χ : Type}

def ProductDescriptor.supportsHarness (pkg : Packaging) (p : ProductDescriptor χ)
    (version : String) : Bool := pkg.contains p.harnessApi version

end SuiteHarness.Runtime
