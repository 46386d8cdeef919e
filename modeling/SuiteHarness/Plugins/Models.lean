import Mathlib.Data.List.Nodup

/-!
# Plugin manifests

The declarations of a plugin that the rest of the package reads: its services,
its contributions, the permissions it asks for and the services it requires.
-/

set_option autoImplicit false

namespace SuiteHarness.Plugins

inductive ContributionKind where
  | product | memory | knowledge | workflow | reflection | prompt | tool | model | mcp | channel
  deriving DecidableEq, Repr

def ContributionKind.value : ContributionKind → String
  | .product => "product"
  | .memory => "memory"
  | .knowledge => "knowledge"
  | .workflow => "workflow"
  | .reflection => "reflection"
  | .prompt => "prompt"
  | .tool => "tools"
  | .model => "models"
  | .mcp => "mcp"
  | .channel => "channels"

inductive Permission where
  | workspaceRead | workspaceWrite | networkEgress | processSpawn | modelInvoke | memoryRead
  | memoryWrite | knowledgeRead | knowledgeWrite | mcpConnect | channelReceive | channelSend
  | toolRegister
  deriving DecidableEq, Repr

structure ContributionDeclaration where
  contributionId : String
  version : String := "1.0.0"
  permissions : List Permission := []
  deriving DecidableEq

structure PluginManifest where
  pluginId : String
  version : String
  provides : List (String × String)
  contributions : List (ContributionKind × ContributionDeclaration)
  permissions : List Permission
  uniqueWithinKind : (contributions.map (fun c => (c.1,c.2.contributionId))).Nodup

namespace Planner

structure RequiredService where
  service : String
  version : String := ""
  optional : Bool := false
  deriving DecidableEq

structure Manifest extends PluginManifest where
  harnessApi : String
  requires : List RequiredService

end Planner

end SuiteHarness.Plugins
