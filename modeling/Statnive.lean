import Statnive.LabelledRuns
import Statnive.ListAccounting
import Statnive.IngestEvents
import Statnive.IngestConsumer
import Statnive.ConsumerAckGate
import Statnive.ConsumerDrain
import Statnive.SegmentedLog
import Statnive.SegmentsInOrder
import Statnive.SegmentContents
import Statnive.WriteAheadLog
import Statnive.BootReplay
import Statnive.GroupSyncer
import Statnive.SyncerPipeline
import Statnive.GroupCommit
import Statnive.SyncerHandoff
import Statnive.SyncerShutdown
import Statnive.PrivacyPolicy
import Statnive.VisitorIdentity
import Statnive.EventSanitize
import Statnive.IngestHandler
import Statnive.IdentityGate
import Statnive.HashOptOut
import Statnive.JournalFile
import Statnive.SuppressionRecord
import Statnive.Suppression
import Statnive.SyncerContents
import Statnive.ErasureSystem
import Statnive.ErasureCompleteness
import Statnive.EnrichPipeline
import Statnive.StoredProps
import Statnive.IngestFunnel
import Statnive.NewVisitor
import Statnive.RetrySafety
import Statnive.CivilCalendar
import Statnive.ZonedTime
import Statnive.SaltRotation
import Statnive.CookieJar
import Statnive.ConsentHandlers
import Statnive.ConsentOrder
import Statnive.AuthTypes
import Statnive.AuthGuards
import Statnive.TokenConfinement
import Statnive.TokenExchange
import Statnive.SingleUse
import Statnive.KeyedRuns
import Statnive.McpBudget
import Statnive.ReplacingTable
import Statnive.AuthStore
import Statnive.UserMutations
import Statnive.AuthSessions
import Statnive.SessionCascade
import Statnive.AccountChanges
import Statnive.SessionRevocation
import Statnive.LookAsideCache
import Statnive.CacheRevocation
import Statnive.UrlParse
import Statnive.SiteOrigins
import Statnive.SiteRegistry
import Statnive.OriginIndex
import Statnive.SitesHandlers
import Statnive.StoredPolicy
import Statnive.PatchAtomicity
import Statnive.RegistryInvariants
import Statnive.OriginUniqueness
import Statnive.IndexCoherence
import Statnive.SelfHost
import Statnive.SiteIdentity
import Statnive.DashboardFilter
import Statnive.DashboardCache
import Statnive.UsersHandlers
import Statnive.GoalsHandlers
import Statnive.PatchedRows
import Statnive.GrantWrites
import Statnive.AdminConfinement
import Statnive.LastAdmin
import Statnive.TokenMint
import Statnive.OAuthServer
import Statnive.Offboarding
import Statnive.DelegatedAccess
import Statnive.BudgetWindows
import Statnive.TimeWindow
import Statnive.TracedCalls
import Statnive.McpServer
import Statnive.McpTenancy
import Statnive.MintRaces
import Statnive.ConsentChain
import Statnive.StoreQueries
import Statnive.GroupedAggregates
import Statnive.Rollups
import Statnive.RawFallback
import Statnive.RangeCoherence
import Statnive.CacheKeys
import Statnive.GoalSnapshot
import Statnive.GoalRevenue
import Statnive.PageSites
import Statnive.VisitorExport
import Statnive.AccountDeletion
import Statnive.LastConsent
import Statnive.WithdrawnProps
import Statnive.FormEncoding
import Statnive.PlainObject
import Statnive.FilterQuery
import Statnive.FilterRoundTrip
import Statnive.EffectCascade
import Statnive.DashboardSignals
import Statnive.UrlState
import Statnive.Base64URL
import Statnive.CSRFTokens
import Statnive.PrivacyRoutes
import Statnive.CrossSitePages
import Statnive.FsyncPercentile
import Statnive.BurstWindows
import Statnive.BurstMemory
import Statnive.ExpiredSessions
import Statnive.HostExtraction
import Statnive.LockoutTable
import Statnive.LockoutThreshold
import Statnive.OriginLookup
import Statnive.LockoutPersistence
import Statnive.GeoBackfill
import Statnive.RangePresets
import Statnive.EventValues
import Statnive.FreeTextSanitizer
import Statnive.HostnameSlugs
import Statnive.RefusedUpdates
import Statnive.WhereClauses
import Statnive.MigrationStatements
import Statnive.MigrationRuns
import Statnive.VariantIntervals
import Statnive.WholeDayRanges
import Statnive.ReferrerChannels
import Statnive.FailedConsents
import Statnive.LogRotation
import Statnive.RateLimit
import Statnive.CSRFAcceptance
import Statnive.McpMessages
import Statnive.SiteWrites
import Statnive.ErasureWatch
import Statnive.JSONText
import Statnive.License
import Statnive.SiteReferences
import Statnive.RegexMatch
import Statnive.TextSanitizer
import Statnive.AlertBands
import Statnive.AlertRecovery
import Statnive.LevelReports
import Statnive.NestedText
import Statnive.OrderClause
import Statnive.YamlTrees
import Statnive.OverlayMerge
import Statnive.CampaignTree
import Statnive.CampaignTotals
import Statnive.CampaignKeys
import Statnive.AcceptedEvents
import Statnive.AccessTokens
import Statnive.KeySets
import Statnive.JwksCache
import Statnive.KeyRotation
import Statnive.LoginAttempts
import Statnive.HonestSession
import Statnive.Linearizability
import Statnive.SitesStore
import Statnive.ReplayedCounts
import Statnive.ScriptJSON
import Statnive.EventDecoder
import Statnive.TrackerWire
