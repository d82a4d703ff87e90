import ChaosPlus.AccessRequests
import ChaosPlus.AccessReviews
import ChaosPlus.AccessTokens
import ChaosPlus.AgentLifecycle
import ChaosPlus.AgentRetries
import ChaosPlus.ApprovalGates
import ChaosPlus.AuditAnchorRuns
import ChaosPlus.AuditExport
import ChaosPlus.AuthorizationRowFilter
import ChaosPlus.BranchRejoin
import ChaosPlus.CanonicalMemberRule
import ChaosPlus.ChannelRelay
import ChaosPlus.ChannelStream
import ChaosPlus.CloneLifecycle
import ChaosPlus.CodeExchange
import ChaosPlus.ConditionChecks
import ChaosPlus.ConditionOrder
import ChaosPlus.ConsentRecords
import ChaosPlus.DepartmentListing
import ChaosPlus.DepartmentMoves
import ChaosPlus.EntityHierarchy
import ChaosPlus.FederatedLogins
import ChaosPlus.FileConfinement
import ChaosPlus.GrantAlgebra
import ChaosPlus.GuidGeneration
import ChaosPlus.KeyRotation
import ChaosPlus.LoginLockout
import ChaosPlus.MachineHub
import ChaosPlus.MemberAddresses
import ChaosPlus.MembershipWindows
import ChaosPlus.MfaEnrollment
import ChaosPlus.NotificationDelivery
import ChaosPlus.PasskeyCeremonies
import ChaosPlus.PatchForms
import ChaosPlus.PluginCalls
import ChaosPlus.RecoveryTokens
import ChaosPlus.RelationshipService
import ChaosPlus.RequestGateway
import ChaosPlus.RunManager
import ChaosPlus.RunnerGateway
import ChaosPlus.SamlCache
import ChaosPlus.ServiceAccounts
import ChaosPlus.SnapshotConsistency
import ChaosPlus.SpawnOutcomes
import ChaosPlus.TargetSync
import ChaosPlus.TenantProvisioning
import ChaosPlus.TimesOfDay
import ChaosPlus.TokenIndexes
import ChaosPlus.VerifiedMailboxes
import ChaosPlus.WorkItemParents
import ChaosPlus.WorkItemProgress
import ChaosPlus.WorkItemRuns
import ChaosPlus.WorkItemUpdates
