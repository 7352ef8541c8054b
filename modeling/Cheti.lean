import Cheti.Base.Fut
import Cheti.Base.Wp
import Cheti.Base.Serial
import Cheti.Base.Prim
import Cheti.Error
import Cheti.Cleanup
import Cheti.Solver
import Cheti.KeyedMutex
import Cheti.Names
import Cheti.Labels
import Cheti.Zone
import Cheti.Http
import Cheti.Json
import Cheti.Listing
import Cheti.RecordSet
import Cheti.Backend
import Cheti.Propagation
import Cheti.Polling
import Cheti.Interleaving
import Cheti.Sequence
import Cheti.Providers.Gandi
import Cheti.Providers.Desec
import Cheti.Providers.PowerDns
import Cheti.Providers.Route53
import Cheti.Providers.GoogleCloudDns
import Cheti.Retry
import Cheti.ReadMergeWrite
import Cheti.Preservation
import Cheti.Providers.Ovh
import Cheti.Providers.Bunny
import Cheti.Providers.Cloudflare
import Cheti.Providers.DigitalOcean
import Cheti.Providers.Infomaniak
import Cheti.Providers.Porkbun
import Cheti.Providers.Hetzner
import Cheti.Providers.Scaleway
import Cheti.Resend
import Cheti.Paging
import Cheti.Records
import Cheti.SinglePage
import Cheti.LockKeys
import Cheti.Abandoned
import Cheti.Base.Optimistic
import Cheti.Processes
import Cheti.RecordApis
import Cheti.RecordContract
import Cheti.Published
import Cheti.Base.LongestSuffix
import Cheti.ZoneLookup
import Cheti.LongestZone
import Cheti.Base.I64
import Cheti.Renewal
import Cheti.Timing
import Cheti.Warnings
import Cheti.Base.Url
import Cheti.PathSegments
import Cheti.InstantAcme
import Cheti.TlsAlpn
import Cheti.AccountStore
import Cheti.ConcurrentSaves
import Cheti.Truncation
import Cheti.CanonicalQuery
import Cheti.Base.IpAddr
import Cheti.Providers.Rfc2136
import Cheti.Nameservers
import Cheti.SignedUpdates
import Cheti.Base.Tasks
import Cheti.Providers.GoogleToken
import Cheti.TokenCache
import Cheti.Base.Levels
import Cheti.Waiting
import Cheti.AppliedChanges
import Cheti.Base.Spawning
import Cheti.Base.Tidy
import Cheti.ConcurrentSolves
import Cheti.OnePage
import Cheti.DynamicUpdates
import Cheti.SolvesOnApis
import Cheti.AsyncActions
import Cheti.Base.Nested
import Cheti.Issuance
import Cheti.Base.Xml
import Cheti.RequestSigning
import Cheti.Route53Wire
