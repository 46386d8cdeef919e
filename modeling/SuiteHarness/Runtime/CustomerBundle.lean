import SuiteHarness.Library.Dict
import SuiteHarness.Library.Sorting
import SuiteHarness.Runtime.Descriptor

/-!
# Customer bundle plans

A customer's manifest selects products and says what they share. A plan is made
by `resolve_customer_bundle` from a catalog, and the constructor of a plan checks
everything again, since models and resolved products can be put together by hand.
Dumping a model and validating the dump is the model itself, if it is valid;
copies are values, so a mutation of a public copy is another value in its place.
-/

set_option autoImplicit false

namespace SuiteHarness.Runtime.CustomerBundle
open SuiteHarness.Library

variable {χ ρ κ : Type}

/-- What configuration models are: raw configurations are values of `ρ`, parsed
ones of `κ`; a model of `χ` is strict if it forbids extra fields. -/
structure Models (χ ρ κ : Type) extends Packaging where
  strict : χ → Bool
  parseConfig : χ → ρ → Option κ

structure CustomerProductSelection (ρ : Type) where
  productId : String
  version : String
  config : ρ
  deriving DecidableEq

namespace CustomerProductSelection

def valid (pkg : Packaging) (s : CustomerProductSelection ρ) : Bool :=
  isComponentId s.productId && isRange pkg false s.version

def accepts (pkg : Packaging) (s : CustomerProductSelection ρ) (candidate : String) : Bool :=
  pkg.contains s.version candidate

end CustomerProductSelection

inductive Customer360Mode where
  | isolated | curated
  deriving DecidableEq

structure Customer360SharingRule where
  producer : String
  consumer : String
  predicates : List String
  deriving DecidableEq

def isPredicate : String → Bool := isSeparated ['.','_',':','-']

def Customer360SharingRule.valid (r : Customer360SharingRule) : Bool :=
  isComponentId r.producer && isComponentId r.consumer && !r.predicates.isEmpty &&
    r.predicates.all (fun value => decide (strip value = value) && isPredicate value) &&
    decide r.predicates.Nodup && decide (r.producer ≠ r.consumer)

structure Customer360SharingManifest where
  mode : Customer360Mode := .isolated
  rules : List Customer360SharingRule := []
  deriving DecidableEq

def Customer360SharingManifest.valid (m : Customer360SharingManifest) : Bool :=
  m.rules.all Customer360SharingRule.valid &&
    match m.mode with
    | .isolated => m.rules.isEmpty
    | .curated => !m.rules.isEmpty

structure CustomerBundleManifest (ρ : Type) where
  schemaVersion : String := "1"
  customerBundleId : String
  version : String
  harnessApi : String
  products : List (CustomerProductSelection ρ)
  customer360 : Customer360SharingManifest := {}
  deriving DecidableEq

namespace CustomerBundleManifest

def selected (m : CustomerBundleManifest ρ) : List String :=
  m.products.map CustomerProductSelection.productId

def supportsHarness (pkg : Packaging) (m : CustomerBundleManifest ρ) (version : String) : Bool :=
  pkg.contains m.harnessApi version

def valid (pkg : Packaging) (m : CustomerBundleManifest ρ) : Bool :=
  decide (m.schemaVersion = "1") && isComponentId m.customerBundleId && isVersion pkg m.version &&
    isRange pkg false m.harnessApi && m.products.all (fun s => s.valid pkg) &&
    m.customer360.valid && !m.products.isEmpty && decide m.selected.Nodup &&
    m.customer360.rules.all (fun r =>
      decide (r.producer ∈ m.selected) && decide (r.consumer ∈ m.selected)) &&
    decide (m.customer360.rules.map (fun r => (r.producer,r.consumer))).Nodup

end CustomerBundleManifest

variable (models : Models χ ρ κ)

def descriptorValid (d : ProductDescriptor χ) : Bool :=
  isComponentId d.productId && isVersion models.toPackaging d.version &&
    isRange models.toPackaging false d.harnessApi &&
    d.bundles.all (fun r => r.valid models.toPackaging) &&
    decide (∀ c ∈ d.capabilities, isName c = true) && models.strict d.configModel &&
    decide (d.bundles.map BundleRequirement.bundleId).Nodup

structure ResolvedCustomerProduct (χ ρ κ : Type) where
  selection : CustomerProductSelection ρ
  descriptor : ProductDescriptor χ
  config : κ
  trustedSelection : CustomerProductSelection ρ
  trustedConfig : κ
  deriving DecidableEq

namespace ResolvedCustomerProduct

def make (selection : CustomerProductSelection ρ) (descriptor : ProductDescriptor χ) (config : κ) :
    ResolvedCustomerProduct χ ρ κ := ⟨selection,descriptor,config,selection,config⟩

def snapshot (p : ResolvedCustomerProduct χ ρ κ) : ResolvedCustomerProduct χ ρ κ :=
  make p.trustedSelection p.descriptor p.trustedConfig

def productId (p : ResolvedCustomerProduct χ ρ κ) : String := p.descriptor.productId

end ResolvedCustomerProduct

structure ResolvedCustomer360Rule where
  producer : String
  consumer : String
  predicates : List String
  deriving DecidableEq

structure Customer360SharingPlan where
  mode : Customer360Mode
  rules : List ResolvedCustomer360Rule
  deriving DecidableEq

def ruleKey (r : Customer360SharingRule) : String ×ₗ String ×ₗ List String :=
  toLex (r.producer,toLex (r.consumer,r.predicates.insertionSort (· ≤ ·)))

def sharingPlanFromManifest (m : CustomerBundleManifest ρ) : Customer360SharingPlan where
  mode := m.customer360.mode
  rules := (sortBy ruleKey m.customer360.rules).map
    (fun r => ⟨r.producer,r.consumer,r.predicates.insertionSort (· ≤ ·)⟩)

structure CustomerBundlePlan (χ ρ κ : Type) where
  manifest : CustomerBundleManifest ρ
  harnessVersion : String
  products : List (ResolvedCustomerProduct χ ρ κ)
  sharing : Customer360SharingPlan
  trustedManifest : CustomerBundleManifest ρ
  deriving DecidableEq

inductive PlanError where
  | invalidManifest
  | manifestHarness
  | idMismatch
  | repeated
  | selectionsDiffer
  | keyError (productId : String)
  | selection (productId : String)
  | invalidDescriptor
  | descriptorId (productId : String)
  | descriptorVersion (productId : String)
  | descriptorHarness (productId : String)
  | configInvalid (productId : String)
  | configDiffers (productId : String)
  | sharing
  deriving DecidableEq

def manifestSelections (m : CustomerBundleManifest ρ) : Dict String (CustomerProductSelection ρ) :=
  m.products.foldl (fun d s => d.set s.productId s) Dict.empty

section Plan

variable [DecidableEq ρ] [DecidableEq κ] (models : Models χ ρ κ)

def canonicalProduct (harnessVersion : String)
    (selections : Dict String (CustomerProductSelection ρ)) (p : ResolvedCustomerProduct χ ρ κ) :
    Except PlanError (ResolvedCustomerProduct χ ρ κ) :=
  match selections.get? p.selection.productId with
  | none => .error (.keyError p.selection.productId)
  | some selection =>
    if p.selection ≠ selection then .error (.selection p.productId)
    else if !descriptorValid models p.descriptor then .error .invalidDescriptor
    else if p.descriptor.productId ≠ selection.productId then
      .error (.descriptorId selection.productId)
    else if !selection.accepts models.toPackaging p.descriptor.version then
      .error (.descriptorVersion p.productId)
    else if !p.descriptor.supportsHarness models.toPackaging harnessVersion then
      .error (.descriptorHarness p.productId)
    else match models.parseConfig p.descriptor.configModel selection.config with
      | none => .error (.configInvalid p.productId)
      | some config =>
        if p.trustedConfig ≠ config then .error (.configDiffers p.productId)
        else .ok (.make selection p.descriptor config)

def makePlan (manifest : CustomerBundleManifest ρ) (harnessVersion : String)
    (products : List (ResolvedCustomerProduct χ ρ κ)) (sharing : Customer360SharingPlan) :
    Except PlanError (CustomerBundlePlan χ ρ κ) :=
  if !manifest.valid models.toPackaging then .error .invalidManifest
  else if !manifest.supportsHarness models.toPackaging harnessVersion then .error .manifestHarness
  else
    let selections := manifestSelections manifest
    let supplied := products.map ResolvedCustomerProduct.snapshot
    let suppliedIds := supplied.map (fun p => p.selection.productId)
    if supplied.any (fun p => decide (p.descriptor.productId ≠ p.selection.productId)) then
      .error .idMismatch
    else if ¬ suppliedIds.Nodup then .error .repeated
    else if suppliedIds.toFinset ≠ (selections.entries.map Prod.fst).toFinset then
      .error .selectionsDiffer
    else match (sortBy (fun p => p.selection.productId) supplied).mapM
        (canonicalProduct models harnessVersion selections) with
      | .error e => .error e
      | .ok canonical =>
        if sharing ≠ sharingPlanFromManifest manifest then .error .sharing
        else .ok ⟨manifest,harnessVersion,canonical,sharingPlanFromManifest manifest,manifest⟩

def CustomerBundlePlan.snapshot (plan : CustomerBundlePlan χ ρ κ) :
    Except PlanError (CustomerBundlePlan χ ρ κ) :=
  makePlan models plan.trustedManifest plan.harnessVersion
    (plan.products.map ResolvedCustomerProduct.snapshot) plan.sharing

end Plan

inductive ResolutionError where
  | duplicateCatalogProduct (productId : String)
  | invalidHarnessVersion (harnessVersion : String)
  | bundleHarness (customerBundleId customerBundleVersion required actual : String)
  | unknownProduct (productId : String)
  | versionMismatch (productId required actual : String)
  | productHarness (productId required actual : String)
  | configInvalid (productId : String)
  | validation
  | plan (error : PlanError)
  deriving DecidableEq

abbrev ProductCatalog (χ : Type) := Dict String (ProductDescriptor χ)

def sortedItems {β : Type} (d : Dict String β) : Dict String β :=
  ⟨sortBy Prod.fst d.entries,((sort_by_perm Prod.fst d.entries).map _).nodup_iff.mpr d.nodup⟩

def productCatalog (descriptors : List (ProductDescriptor χ)) :
    Except ResolutionError (ProductCatalog χ) :=
  ((descriptors.map (fun d => (d.productId,d))).foldlM
    (Dict.claim (fun productId _ _ => .duplicateCatalogProduct productId)) Dict.empty).map
      sortedItems

inductive ManifestInput (ρ : Type) where
  | model (manifest : CustomerBundleManifest ρ)
  | mapping (raw : CustomerBundleManifest ρ)

def ManifestInput.parsed (pkg : Packaging) :
    ManifestInput ρ → Except ResolutionError (CustomerBundleManifest ρ)
  | .model m => .ok m
  | .mapping raw => if raw.valid pkg then .ok raw else .error .validation

def resolveProduct (version : String) (catalog : ProductCatalog χ) (selection : CustomerProductSelection ρ) :
    Except ResolutionError (ResolvedCustomerProduct χ ρ κ) :=
  match catalog.get? selection.productId with
  | none => .error (.unknownProduct selection.productId)
  | some descriptor =>
    if !selection.accepts models.toPackaging descriptor.version then
      .error (.versionMismatch selection.productId selection.version descriptor.version)
    else if !descriptor.supportsHarness models.toPackaging version then
      .error (.productHarness selection.productId descriptor.harnessApi version)
    else match models.parseConfig descriptor.configModel selection.config with
      | none => .error (.configInvalid selection.productId)
      | some config => .ok (.make selection descriptor config)

def resolveCustomerBundle [DecidableEq ρ] [DecidableEq κ] (manifest : ManifestInput ρ)
    (catalog : ProductCatalog χ) (harnessVersion : HarnessVersion) :
    Except ResolutionError (CustomerBundlePlan χ ρ κ) :=
  match manifest.parsed models.toPackaging with
  | .error e => .error e
  | .ok parsed => match harnessVersion.parsed models.toPackaging with
    | .error text => .error (.invalidHarnessVersion text)
    | .ok version =>
      if !parsed.supportsHarness models.toPackaging version then
        .error (.bundleHarness parsed.customerBundleId parsed.version parsed.harnessApi version)
      else match (sortBy CustomerProductSelection.productId parsed.products).mapM
          (resolveProduct models version catalog) with
        | .error e => .error e
        | .ok resolved =>
          (makePlan models parsed version resolved (sharingPlanFromManifest parsed)).mapError
            .plan

end SuiteHarness.Runtime.CustomerBundle
