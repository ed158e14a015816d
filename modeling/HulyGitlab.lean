import HulyGitlab.Sync.LocalPush
import HulyGitlab.Sync.TxSubscription
import HulyGitlab.Sync.Frames
import HulyGitlab.Sync.Reviews
import HulyGitlab.Sync.Epics
import HulyGitlab.Sync.Notes
import HulyGitlab.Sync.MergeRequests
import HulyGitlab.Sync.IssuesEdits
import HulyGitlab.Sync.EngineRecovery
import HulyGitlab.Sync.BindingLoader
import HulyGitlab.Sync.AttachmentTenants
import HulyGitlab.Sync.BindingRouting
import HulyGitlab.Sync.NotesConvergence
import HulyGitlab.Sync.CrashResume
import HulyGitlab.Sync.MixinMigration
import HulyGitlab.Sync.MixinSplit
import HulyGitlab.Sync.MixinReading
import HulyGitlab.Sync.PipelineStatus
import HulyGitlab.Sync.BindingLifecycle
import HulyGitlab.Sync.WebhookRegistration
import HulyGitlab.Sync.EpicMembership
import HulyGitlab.Sync.ApprovalDelta
import HulyGitlab.Sync.DeferredRecords
import HulyGitlab.Sync.ManagerAwaits
import HulyGitlab.Sync.ReviewerMigration
import HulyGitlab.Sync.ManagerWrites
import HulyGitlab.Sync.EchoMarkers
import HulyGitlab.Sync.FieldOwnership
import HulyGitlab.Lib.Repetition
import HulyGitlab.Sync.ReviewerKeeping
import HulyGitlab.Sync.ApprovalStatus
import HulyGitlab.Sync.BackfillScheduler
import HulyGitlab.Auth.Refresh
import HulyGitlab.Adapter.Lists
import HulyGitlab.Adapter.Composite
import HulyGitlab.Adapter.CompositeAgreement
import HulyGitlab.Sync.MirrorCounts
import HulyGitlab.Sync.KeyStability
import HulyGitlab.Huly.IdentityRuns
import HulyGitlab.Sync.CommentPush
import HulyGitlab.Sync.ThreadMixins
import HulyGitlab.Sync.NoteHooks
import HulyGitlab.Sync.ThreadAgreement
import HulyGitlab.Sync.BindingRegistry
import HulyGitlab.Lib.WorkPool
import HulyGitlab.Sync.DeferralChains
import HulyGitlab.Sync.StatusCache
import HulyGitlab.Sync.TxBuffering
import HulyGitlab.Sync.BreakerMachine
import HulyGitlab.Sync.MixinView
import HulyGitlab.Sync.StatusRoundTrip
import HulyGitlab.Sync.HalfOpenProbe
import HulyGitlab.Sync.QueueDrain
import HulyGitlab.Sync.WorkspaceClients
import HulyGitlab.Sync.KindSafety
import HulyGitlab.Sync.DeliveryOrder
import HulyGitlab.Http.RateLimit
import HulyGitlab.Lib.IpAddress
import HulyGitlab.Util.PrivateHosts
import HulyGitlab.Lib.TextInsertion
import HulyGitlab.Markdown.Attachments
import HulyGitlab.Lib.Scanning
import HulyGitlab.Sync.LinkRewriting
import HulyGitlab.Lib.Json
import HulyGitlab.Lib.UriComponent
import HulyGitlab.Util.SecretRotation
import HulyGitlab.Http.CookieAuth
import HulyGitlab.Http.OAuthState
import HulyGitlab.Http.CookieSecurity
import HulyGitlab.Auth.UserCredentialHistory
import HulyGitlab.Sync.BackfillEvents
import HulyGitlab.Http.OAuthCallback
import HulyGitlab.Auth.RefreshRaces
import HulyGitlab.Adapter.DiffBody
import HulyGitlab.Adapter.RateLimitRetry
import HulyGitlab.Sync.NameCaches
import HulyGitlab.Adapter.ApprovalRulesCache
import HulyGitlab.Adapter.Capabilities
import HulyGitlab.Sync.WebhookRepair
import HulyGitlab.Http.BindingCreation
import HulyGitlab.Sync.MigrationSelection
import HulyGitlab.Lib.GfmTable
import HulyGitlab.Markdown.Tables
import HulyGitlab.Lib.TextSearch
import HulyGitlab.UserUi.SuggestionParser
import HulyGitlab.UserUi.SuggestionBlocks
import HulyGitlab.Http.Webhook
import HulyGitlab.Sync.Confidentiality
import HulyGitlab.Sync.PathAgreement
import HulyGitlab.Sync.OperatorPause
import HulyGitlab.Sync.PauseExclusion
import HulyGitlab.Lib.RecentUse
import HulyGitlab.Sync.QueueTracking
import HulyGitlab.Sync.QueueLiveness
import HulyGitlab.Sync.KeyDecoding
import HulyGitlab.Sync.CursorMoves
import HulyGitlab.Sync.BackfillWindow
import HulyGitlab.Lib.Discipline
import HulyGitlab.Sync.MirrorDiscipline
import HulyGitlab.Sync.ManagerDiscipline
import HulyGitlab.Sync.CreationRuns
import HulyGitlab.Sync.NoteUniqueness
import HulyGitlab.Sync.SingleCreation
import HulyGitlab.Sync.LocalAwaits
import HulyGitlab.Sync.LocalCreation
import HulyGitlab.Sync.IssueRounds
import HulyGitlab.Lib.Confinement
import HulyGitlab.Sync.SerialHandlers
import HulyGitlab.Http.AccountLinks
import HulyGitlab.Http.LinkProvenance
import HulyGitlab.Sync.IssueImport
import HulyGitlab.Http.WebhookSecrets
import HulyGitlab.Http.UserSession
import HulyGitlab.Lib.Guarding
import HulyGitlab.Sync.AttachmentContents
import HulyGitlab.Sync.UnmirroredDocs
import HulyGitlab.Sync.UserDocs
import HulyGitlab.Lib.TimedCache
import HulyGitlab.Adapter.GraphqlCapability
