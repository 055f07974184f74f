import CapabilityCompiler.Foundation.JsonText
import CapabilityCompiler.Foundation.Text
import CapabilityCompiler.Errors
import CapabilityCompiler.Policies.Disclosure
import CapabilityCompiler.Contracts.Soundness
import CapabilityCompiler.Contracts.FrozenSoundness
import CapabilityCompiler.Actions.GuaranteedPointers
import CapabilityCompiler.Actions.PointerAgreement
import CapabilityCompiler.Actions.TenantIsolation
import CapabilityCompiler.Actions.TerminalReplay
import CapabilityCompiler.Actions.StateGuard
import CapabilityCompiler.Actions.RowIntegrity
import CapabilityCompiler.Execution.TenantInjection
import CapabilityCompiler.Execution.PublicDefaults
import CapabilityCompiler.Domains.ImpactMonotone
import CapabilityCompiler.Scope.Exactness
import CapabilityCompiler.Execution.ScheduleIndependence
import CapabilityCompiler.Actions.SealedArguments
import CapabilityCompiler.Actions.OneTimeApproval
import CapabilityCompiler.Actions.BindingIsolation
import CapabilityCompiler.Actions.RequiredAudit
import CapabilityCompiler.Actions.CommitSettled
import CapabilityCompiler.Actions.LedgerRecovery
import CapabilityCompiler.Actions.RewritePreservation
import CapabilityCompiler.Actions.StaticDisclosure
import CapabilityCompiler.Actions.AuditIntegrity
import CapabilityCompiler.Usage.ActionOrder
import CapabilityCompiler.Usage.BindingSoundness
import CapabilityCompiler.Usage.ImpactPropagation
import CapabilityCompiler.Usage.SchemaChange
import CapabilityCompiler.Usage.SelectedRoutes
import CapabilityCompiler.Gateway.SessionLifecycle
import CapabilityCompiler.Gateway.VaultDurability
import CapabilityCompiler.Gateway.NotificationIsolation
import CapabilityCompiler.Gateway.RowRoundTrip
import CapabilityCompiler.Mcp.ProjectionPreserved
import CapabilityCompiler.Mcp.Dispatch
import CapabilityCompiler.Providers.PathConfinement
import CapabilityCompiler.Providers.ActionControls
import CapabilityCompiler.Auth.SingleFlight
import CapabilityCompiler.Auth.StaleAttempts
import CapabilityCompiler.Domains.Propagation
import CapabilityCompiler.Interactions.ConditionCycle
import CapabilityCompiler.Interactions.ConditionSemantics
import CapabilityCompiler.Interactions.OptionFreshness
import CapabilityCompiler.Overlay.Payload
import CapabilityCompiler.Overlay.RouteViews
import CapabilityCompiler.Compiler.SemanticPatch
import CapabilityCompiler.Quality.DiscoveryGraph
import CapabilityCompiler.Gateway.RequestSecurity
import CapabilityCompiler.Interactions.TrustedInputs
import CapabilityCompiler.Intents.Compatibility
import CapabilityCompiler.Interactions.ConditionValidation
import CapabilityCompiler.Quality.Components
import CapabilityCompiler.Contracts.Termination
import CapabilityCompiler.Quality.OutputTermination
