import Quicgate.TransitionSystem
import Quicgate.FirstMatch
import Quicgate.GoMaps
import Quicgate.GoStrings
import Quicgate.Netip
import Quicgate.WgPolicy
import Quicgate.VpnRoutes
import Quicgate.GoNet
import Quicgate.Routing
import Quicgate.Access
import Quicgate.AccessVerdicts
import Quicgate.PublicRequests
import Quicgate.VpnLease
import Quicgate.FlowLog
import Quicgate.WgManager
import Quicgate.WgOwnership
import Quicgate.WgFlows
import Quicgate.DockerRoutes
import Quicgate.AdminAccounts
import Quicgate.LoginThrottle
import Quicgate.LoginLockout
import Quicgate.TotpSteps
import Quicgate.AdminLogin
import Quicgate.AdminSessions
import Quicgate.Checks
import Quicgate.SqlTable
import Quicgate.StoreConfig
import Quicgate.HostChecks
import Quicgate.RankedRules
import Quicgate.PathAuth
import Quicgate.UrlPaths
import Quicgate.WindowSums
import Quicgate.Traffic
import Quicgate.TrafficTotals
import Quicgate.DimensionTable
import Quicgate.PathSafe
import Quicgate.SsoCookies
import Quicgate.IdentityHeaders
import Quicgate.StreamChecks
import Quicgate.NormalForms
import Quicgate.StoreDb
import Quicgate.StoreImport
import Quicgate.ImportGates
import Quicgate.StoreMachine
import Quicgate.ExclusiveRows
import Quicgate.StreamPorts
import Quicgate.HostNames
import Quicgate.StoreRefs
import Quicgate.Base64
import Quicgate.WgPeers
import Quicgate.DeviceLimits
import Quicgate.WgKeyOwners
import Quicgate.WgAddresses
import Quicgate.WgNetwork
import Quicgate.WgSites
import Quicgate.Sealing
import Quicgate.SealedStore
import Quicgate.LockedStore
import Quicgate.Restore
import Quicgate.IdlePair
import Quicgate.UdpSessions
import Quicgate.UpnpMappings
import Quicgate.UpnpRecord
import Quicgate.RealIP
import Quicgate.SettingsApi
import Quicgate.VpnIssuers
import Quicgate.JsonText
import Quicgate.DockerProvider
import Quicgate.DockerAggregation
import Quicgate.ClientCerts
import Quicgate.LengthPrefixed
import Quicgate.ServerNames
import Quicgate.SniPeek
import Quicgate.PathRules
import Quicgate.Recency
import Quicgate.ResponseCache
import Quicgate.GoTime
import Quicgate.CacheControl
import Quicgate.AcceptEncoding
import Quicgate.CacheRecorder
import Quicgate.BanManager
import Quicgate.PeerRules
import Quicgate.DockerLabels
import Quicgate.GoRunes
import Quicgate.ListHeader
import Quicgate.CleanPaths
import Quicgate.RestoreArchive
import Quicgate.WriteSequences
import Quicgate.RefusedWrites
import Quicgate.AddrText
import Quicgate.TrustedSuffix
import Quicgate.SavedBans
import Quicgate.StreamConns
import Quicgate.StreamSpecs
import Quicgate.StreamSync
import Quicgate.Upserts
import Quicgate.ImportKinds
import Quicgate.StoredRows
import Quicgate.ImportAgain
import Quicgate.AdminSso
import Quicgate.Rotation
import Quicgate.Balancer
import Quicgate.WgExpiry
import Quicgate.WgUdpAdmission
import Quicgate.WgRelay
import Quicgate.Markdown
import Quicgate.VpnDevices
import Quicgate.SealStarts
