import SuiteHarness.Sessions.Ownership
import SuiteHarness.Sessions.Accounting
import SuiteHarness.Execution.Attenuation
import SuiteHarness.Execution.SharedBudget
import SuiteHarness.Execution.EventStream
import SuiteHarness.Execution.Approvals
import SuiteHarness.Execution.Checkpoints
import SuiteHarness.Execution.Registry
import SuiteHarness.Execution.Revocation
import SuiteHarness.Multiagent.Tasks
import SuiteHarness.Memory.CuratedSharing
import SuiteHarness.Persistence.Deduplication
import SuiteHarness.Persistence.LostUpdates
import SuiteHarness.Mcp.LateAnswers
import SuiteHarness.Mcp.ResumeCursor
import SuiteHarness.Models.Compaction
import SuiteHarness.Models.Splicing
import SuiteHarness.Server.Forgetting
import SuiteHarness.Web.Egress
import SuiteHarness.Workspace.Confinement
import SuiteHarness.Workspace.LostEdits
import SuiteHarness.Sessions.ReadBack
import SuiteHarness.Sessions.Watermark
import SuiteHarness.Execution.Visibility
import SuiteHarness.Channels.Gateway
import SuiteHarness.Runtime.CustomerPlans
import SuiteHarness.Server.RunHistory
import SuiteHarness.Server.Compaction
import SuiteHarness.Runtime.SharingPolicies
import SuiteHarness.Channels.DeduplicatorAgreement
import SuiteHarness.Mcp.Wear
import SuiteHarness.Plugins.Artifact
import SuiteHarness.Plugins.Signature
import SuiteHarness.Execution.ToolIdentities
import SuiteHarness.Workspace.Pages
import SuiteHarness.Channels.Tickets
import SuiteHarness.Sandbox.Remote
import SuiteHarness.Sandbox.Sessions
import SuiteHarness.Security.Narrowing
import SuiteHarness.Mcp.Sse
import SuiteHarness.Mcp.Aliases
import SuiteHarness.Server.SessionLocks
import SuiteHarness.Mcp.Sampling
import SuiteHarness.Sessions.Isolation
import SuiteHarness.Memory.Tenants
import SuiteHarness.Models.SseJson
