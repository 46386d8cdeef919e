import SuiteHarness.CanonicalJson
import SuiteHarness.Plugins.Models

/-!
# Signed payloads

`signature_payload` dumps a manifest and prints it with sorted keys. A loaded
manifest carries, for each of its permission sets, the order in which its process
enumerates the frozenset. The payload is the canonical value whose text the source
signs: JSON text with sorted keys is that of one canonical value only.
-/

set_option autoImplicit false

namespace SuiteHarness

namespace Plugins
open Planner

inductive TrustMode where
  | trustedInProcess | isolatedWorker | mcp
  deriving DecidableEq

def TrustMode.value : TrustMode → String
  | .trustedInProcess => "trusted_in_process"
  | .isolatedWorker => "isolated_worker"
  | .mcp => "mcp"

def Permission.value : Permission → String
  | .workspaceRead => "workspace.read"
  | .workspaceWrite => "workspace.write"
  | .networkEgress => "network.egress"
  | .processSpawn => "process.spawn"
  | .modelInvoke => "model.invoke"
  | .memoryRead => "memory.read"
  | .memoryWrite => "memory.write"
  | .knowledgeRead => "knowledge.read"
  | .knowledgeWrite => "knowledge.write"
  | .mcpConnect => "mcp.connect"
  | .channelReceive => "channel.receive"
  | .channelSend => "channel.send"
  | .toolRegister => "tool.register"

structure SignatureMetadata where
  algorithm : String
  keyId : String
  value : String
  deriving DecidableEq

structure ArtifactIntegrity where
  digest : String
  signature : Option SignatureMetadata := none
  deriving DecidableEq

structure LoadedManifest extends Manifest where
  schemaVersion : String
  trustMode : TrustMode
  entrypoint : String
  artifact : ArtifactIntegrity
  configSchema : List (String × Json)
  /-- A frozenset is enumerated without repetitions. -/
  enumerated : permissions.Nodup ∧ ∀ c ∈ contributions, c.2.permissions.Nodup
  /-- No contribution asks for more than the plugin. -/
  contained : ∀ c ∈ contributions, c.2.permissions ⊆ permissions

def contributionKinds : List ContributionKind :=
  [.product,.memory,.knowledge,.workflow,.reflection,.prompt,.tool,.model,.mcp,.channel]

variable (m : LoadedManifest)

def LoadedManifest.declared (kind : ContributionKind) : List ContributionDeclaration :=
  (m.contributions.filter (fun c => decide (c.1 = kind))).map Prod.snd

/-! `model_dump(mode="json")`. -/

def permissionsJson (values : List Permission) : Json :=
  .obj [("values",.arr (values.map (fun p => .str p.value)))]

def providedJson (p : String × String) : Json :=
  .obj [("service",.str p.1),("version",.str p.2)]

def requiredJson (r : RequiredService) : Json :=
  .obj [("service",.str r.service),("version",.str r.version),("optional",.bool r.optional)]

def declarationJson (c : ContributionDeclaration) : Json :=
  .obj [("contribution_id",.str c.contributionId),("version",.str c.version),
    ("permissions",permissionsJson c.permissions)]

def signatureJson : Option SignatureMetadata → Json
  | none => .null
  | some s => .obj [("algorithm",.str s.algorithm),("key_id",.str s.keyId),("value",.str s.value)]

def contributionsJson : List (String × Json) :=
  contributionKinds.map (fun kind => (kind.value,.arr ((m.declared kind).map declarationJson)))

def modelDump : List (String × Json) :=
  [("schema_version",.str m.schemaVersion),("plugin_id",.str m.pluginId),
    ("version",.str m.version),("harness_api",.str m.harnessApi),
    ("trust_mode",.str m.trustMode.value),("entrypoint",.str m.entrypoint),
    ("artifact",.obj [("digest",.str m.artifact.digest),
      ("signature",signatureJson m.artifact.signature)]),
    ("provides",.arr (m.provides.map providedJson)),
    ("requires",.arr (m.requires.map requiredJson)),
    ("contributions",.obj (contributionsJson m)),
    ("permissions",permissionsJson m.permissions),("config_schema",.obj m.configSchema)]

def signaturePayload : Json :=
  (Json.obj (modelDump { m with artifact := { m.artifact with signature := none } })).canon

/-! Manifests that agree apart from the signature, up to a relation on their
permission sets. -/

structure AgreeDeclaration (R : List Permission → List Permission → Prop)
    (c d : ContributionDeclaration) : Prop where
  contributionId : c.contributionId = d.contributionId
  version : c.version = d.version
  permissions : R c.permissions d.permissions

structure Agree (R : List Permission → List Permission → Prop) (a b : LoadedManifest) : Prop where
  schemaVersion : a.schemaVersion = b.schemaVersion
  pluginId : a.pluginId = b.pluginId
  version : a.version = b.version
  harnessApi : a.harnessApi = b.harnessApi
  trustMode : a.trustMode = b.trustMode
  entrypoint : a.entrypoint = b.entrypoint
  digest : a.artifact.digest = b.artifact.digest
  provides : a.provides = b.provides
  requires : a.requires = b.requires
  contributions : ∀ kind, List.Forall₂ (AgreeDeclaration R) (a.declared kind) (b.declared kind)
  permissions : R a.permissions b.permissions
  configSchema : (Json.obj a.configSchema).canon = (Json.obj b.configSchema).canon

def SameSet (p q : List Permission) : Prop := ∀ x, x ∈ p ↔ x ∈ q

/-- Config schemas are equal as JSON: `1`, `1.0` and `true`, equal in Python, differ. -/
def EqualApartFromSignature : LoadedManifest → LoadedManifest → Prop := Agree SameSet

theorem permission_value_inj (p q : Permission) (h : p.value = q.value) : p = q := by
  have hparse : ∀ r : Permission, [Permission.workspaceRead,.workspaceWrite,.networkEgress,
      .processSpawn,.modelInvoke,.memoryRead,.memoryWrite,.knowledgeRead,.knowledgeWrite,
      .mcpConnect,.channelReceive,.channelSend,.toolRegister].find?
        (fun x => decide (x.value = r.value)) = some r := by
    intro r
    cases r <;> decide +kernel
  exact Option.some.inj ((hparse p).symm.trans (h ▸ hparse q))

theorem trust_mode_value_inj (a b : TrustMode) (h : a.value = b.value) : a = b := by
  cases a <;> cases b <;> first | rfl | exact absurd h (by decide)

open Json

theorem permissions_canon (p q : List Permission) :
    (permissionsJson p).canon = (permissionsJson q).canon ↔ p = q := by
  rw [permissionsJson, permissionsJson, canon_obj_inj ["values"] (by decide) rfl rfl]
  simp only [List.map_cons, List.map_nil, List.cons.injEq, Prod.mk.injEq, true_and, and_true]
  apply canon_arr_inj
  intro x y h
  exact permission_value_inj x y (str.inj h)

theorem provided_canon (p q : String × String) (h : (providedJson p).canon = (providedJson q).canon) :
    p = q := by
  rw [providedJson, providedJson,
    canon_obj_inj ["service","version"] (by decide) rfl rfl] at h
  simp only [List.map_cons, List.map_nil, List.cons.injEq, Prod.mk.injEq, true_and, and_true,
    canon, str.injEq] at h
  exact Prod.ext h.1 h.2

theorem required_canon (r t : RequiredService) (h : (requiredJson r).canon = (requiredJson t).canon) :
    r = t := by
  rw [requiredJson, requiredJson,
    canon_obj_inj ["service","version","optional"] (by decide) rfl rfl] at h
  simp only [List.map_cons, List.map_nil, List.cons.injEq, Prod.mk.injEq, true_and, and_true,
    canon, str.injEq, bool.injEq] at h
  cases r
  cases t
  simp_all

theorem declaration_canon (c d : ContributionDeclaration) :
    (declarationJson c).canon = (declarationJson d).canon ↔ AgreeDeclaration Eq c d := by
  rw [declarationJson, declarationJson,
    canon_obj_inj ["contribution_id","version","permissions"] (by decide) rfl rfl]
  simp only [List.map_cons, List.map_nil, List.cons.injEq, Prod.mk.injEq, true_and, and_true,
    permissions_canon]
  simp only [canon, str.injEq]
  exact ⟨fun h => ⟨h.1,h.2.1,h.2.2⟩,fun h => ⟨h.contributionId,h.version,h.permissions⟩⟩

theorem declarations_canon (l l' : List ContributionDeclaration) :
    (arr (l.map declarationJson)).canon = (arr (l'.map declarationJson)).canon ↔
      List.Forall₂ (AgreeDeclaration Eq) l l' := by
  rw [canon_arr_map]
  induction l generalizing l' with
  | nil =>
    cases l' with
    | nil => simp
    | cons => simp
  | cons c rest ih =>
    cases l' with
    | nil => simp
    | cons d rest' =>
      rw [List.map_cons, List.map_cons, List.cons.injEq, declaration_canon, ih,
        List.forall₂_cons]

theorem contributions_canon (a b : LoadedManifest) :
    (obj (contributionsJson a)).canon = (obj (contributionsJson b)).canon ↔
      ∀ kind, List.Forall₂ (AgreeDeclaration Eq) (a.declared kind) (b.declared kind) := by
  rw [canon_obj_inj (contributionKinds.map ContributionKind.value) (by decide) rfl rfl,
    contributionsJson, contributionsJson, List.map_map, List.map_map, List.map_inj_left]
  have hall : ∀ kind, kind ∈ contributionKinds := by
    intro kind
    cases kind <;> decide
  constructor
  · intro h kind
    exact (declarations_canon _ _).mp (congrArg Prod.snd (h kind (hall kind)))
  · intro h kind _
    exact congrArg (Prod.mk kind.value) ((declarations_canon _ _).mpr (h kind))

theorem artifact_canon (s t : String) :
    (obj [("digest",.str s),("signature",.null)]).canon =
      (obj [("digest",.str t),("signature",.null)]).canon ↔ s = t := by
  rw [canon_obj_inj ["digest","signature"] (by decide) rfl rfl]
  simp [canon]

def manifestKeys : List String :=
  ["schema_version","plugin_id","version","harness_api","trust_mode","entrypoint","artifact",
    "provides","requires","contributions","permissions","config_schema"]

/-- Equal payloads list the permissions in the same order. -/
theorem payload_eq_iff (a b : LoadedManifest) :
    signaturePayload a = signaturePayload b ↔ Agree Eq a b := by
  rw [signaturePayload, signaturePayload, canon_obj_inj manifestKeys (by decide) rfl rfl]
  simp only [modelDump, List.map_cons, List.map_nil, List.cons.injEq, Prod.mk.injEq, true_and,
    and_true, signatureJson, artifact_canon, canon_arr_inj provided_canon,
    canon_arr_inj required_canon, permissions_canon, contributions_canon, canon_str_inj]
  constructor
  · rintro ⟨hschema,hid,hversion,hapi,htrust,hentry,hdigest,hprovides,hrequires,hcontributions,
      hpermissions,hconfig⟩
    exact ⟨hschema,hid,hversion,hapi,trust_mode_value_inj _ _ htrust,hentry,hdigest,hprovides,
      hrequires,hcontributions,hpermissions,hconfig⟩
  · intro h
    exact ⟨h.schemaVersion,h.pluginId,h.version,h.harnessApi,congrArg _ h.trustMode,h.entrypoint,
      h.digest,h.provides,h.requires,h.contributions,h.permissions,h.configSchema⟩

theorem agree_mono {R S : List Permission → List Permission → Prop}
    (hRS : ∀ p q, R p q → S p q) {a b : LoadedManifest} (h : Agree R a b) : Agree S a b :=
  { h with
    contributions := fun kind => (h.contributions kind).imp
      (fun _ _ hc => { hc with permissions := hRS _ _ hc.permissions })
    permissions := hRS _ _ h.permissions }

/-- There is one way to enumerate a set of at most one element. -/
theorem same_set_eq {p q : List Permission} (hp : p.Nodup) (hq : q.Nodup) (hlength : p.length ≤ 1)
    (h : SameSet p q) : p = q := by
  have hperm : q.Perm p := ((List.perm_ext_iff_of_nodup hp hq).mpr h).symm
  cases p with
  | nil => exact (List.perm_nil.mp hperm).symm
  | cons x rest =>
    cases rest with
    | nil => exact (List.perm_singleton.mp hperm).symm
    | cons => simp at hlength

theorem declared_mem {m : LoadedManifest} {kind : ContributionKind} {c : ContributionDeclaration}
    (hc : c ∈ m.declared kind) : (kind,c) ∈ m.contributions := by
  obtain ⟨⟨kind',c'⟩,hmem,rfl⟩ := List.mem_map.mp hc
  obtain ⟨hmem,hkind⟩ := List.mem_filter.mp hmem
  rw [decide_eq_true_eq] at hkind
  exact hkind ▸ hmem

theorem declarations_eq {l l' : List ContributionDeclaration}
    (hl : ∀ c ∈ l, c.permissions.Nodup ∧ c.permissions.length ≤ 1)
    (hl' : ∀ c ∈ l', c.permissions.Nodup) (h : List.Forall₂ (AgreeDeclaration SameSet) l l') :
    List.Forall₂ (AgreeDeclaration Eq) l l' := by
  induction h with
  | nil => exact .nil
  | cons hfirst _ ih =>
    rw [List.forall_mem_cons] at hl hl'
    exact .cons { hfirst with permissions := same_set_eq hl.1.1 hl'.1 hl.1.2 hfirst.permissions }
      (ih hl.2 hl'.2)

theorem reverse_eq_self {p : List Permission} (hp : p.Nodup) (h : p = p.reverse) : p.length ≤ 1 := by
  cases p with
  | nil => exact Nat.zero_le 1
  | cons x rest =>
    cases rest with
    | nil => exact le_rfl
    | cons y rest =>
      -- the first element would also be the last
      have hlast : (y::rest).getLast? = some x := by
        rw [← List.getLast?_cons_cons (a := x), h, List.getLast?_reverse]
        rfl
      rw [List.nodup_cons] at hp
      exact absurd (List.mem_of_getLast? hlast) hp.1

/-- The payload is the same in every process exactly for the plugins with at
most one permission, and it always determines the manifest up to its signature. -/
theorem signature_payload_canonical_iff (a : LoadedManifest) :
    ((∀ b, EqualApartFromSignature a b → signaturePayload a = signaturePayload b) ↔
      a.permissions.length ≤ 1) ∧
    ∀ b, signaturePayload a = signaturePayload b → EqualApartFromSignature a b := by
  refine ⟨⟨fun h => ?_,fun hlength b hb => ?_⟩,fun b hb => ?_⟩
  · let b : LoadedManifest := { a with
      permissions := a.permissions.reverse
      enumerated := ⟨List.nodup_reverse.mpr a.enumerated.1,a.enumerated.2⟩
      contained := fun c hc p hp => List.mem_reverse.mpr (a.contained c hc hp) }
    have hequal : EqualApartFromSignature a b := {
      schemaVersion := rfl, pluginId := rfl, version := rfl, harnessApi := rfl, trustMode := rfl
      entrypoint := rfl, digest := rfl, provides := rfl, requires := rfl
      contributions := fun kind => List.forall₂_same.mpr
        (fun c _ => ⟨rfl,rfl,fun _ => Iff.rfl⟩)
      permissions := fun x => List.mem_reverse.symm
      configSchema := rfl }
    exact reverse_eq_self a.enumerated.1 ((payload_eq_iff a b).mp (h b hequal)).permissions
  · rw [payload_eq_iff]
    refine { hb with
      contributions := fun kind => declarations_eq (fun c hc => ?_)
        (fun c hc => b.enumerated.2 _ (declared_mem hc)) (hb.contributions kind)
      permissions := same_set_eq a.enumerated.1 b.enumerated.1 hlength hb.permissions }
    have hmem := declared_mem hc
    have hnodup := a.enumerated.2 _ hmem
    exact ⟨hnodup,((hnodup.subperm (a.contained _ hmem)).length_le).trans hlength⟩
  · exact agree_mono (fun p q hpq x => by rw [hpq]) ((payload_eq_iff a b).mp hb)

def twoPermissions (first second : Permission) (h : first ≠ second) : LoadedManifest where
  pluginId := "demo"
  version := "1.0.0"
  provides := []
  contributions := []
  permissions := [first,second]
  uniqueWithinKind := List.nodup_nil
  harnessApi := ">=1"
  requires := []
  schemaVersion := "1"
  trustMode := .mcp
  entrypoint := "demo:Plugin"
  artifact := ⟨"sha256:00",none⟩
  configSchema := [("type",.str "object"),("additionalProperties",.bool false)]
  enumerated := ⟨by simp [h],nofun⟩
  contained := nofun

/-- One manifest, loaded in two processes. -/
theorem enumeration_changes_payload :
    EqualApartFromSignature (twoPermissions .memoryRead .memoryWrite (by decide))
      (twoPermissions .memoryWrite .memoryRead (by decide)) ∧
    signaturePayload (twoPermissions .memoryRead .memoryWrite (by decide)) ≠
      signaturePayload (twoPermissions .memoryWrite .memoryRead (by decide)) := by
  refine ⟨?_,by decide +kernel⟩
  constructor
  case permissions =>
    intro x
    show x ∈ [Permission.memoryRead,.memoryWrite] ↔ x ∈ [Permission.memoryWrite,.memoryRead]
    simp only [List.mem_cons, List.not_mem_nil, or_false]
    exact or_comm
  case contributions => exact fun _ => .nil
  all_goals rfl

end Plugins
end SuiteHarness
